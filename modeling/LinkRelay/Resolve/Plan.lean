import LinkRelay.World
set_option autoImplicit false

/-!
# Plans

What one task does, as a tree: at each node it asks its surroundings for something and goes on
with the answer. A plan does nothing by itself; `Resolve.Machine` carries plans out.
-/

namespace LinkRelay

inductive Plan (α : Type) where
  | done (a : α)
  | checkCircuit (p : Provider) (k : Bool → Plan α)
  | openCircuit (p : Provider) (durationMs : Nat) (k : Plan α)
  | count (s : Series) (k : Plan α)
  /-- Waits to be admitted under a name, and learns how long it was held back. -/
  | awaitTurn (name : String) (k : Except Failure Nat → Plan α)
  /-- Puts a question to a client, and learns how long the answer takes. -/
  | place (client : Nat) (q : Question) (k : Nat → Plan α)
  | receive (client : Nat) (q : Question) (k : Except Failure q.Answer → Plan α)
  | pause (ms : Nat) (k : Plan α)
  | readClock (k : Time → Plan α)

namespace Plan

variable {α β : Type}

def bind : Plan α → (α → Plan β) → Plan β
  | .done a, f => f a
  | .checkCircuit p k, f => .checkCircuit p fun b => (k b).bind f
  | .openCircuit p ms k, f => .openCircuit p ms (k.bind f)
  | .count s k, f => .count s (k.bind f)
  | .awaitTurn name k, f => .awaitTurn name fun r => (k r).bind f
  | .place c q k, f => .place c q fun d => (k d).bind f
  | .receive c q k, f => .receive c q fun r => (k r).bind f
  | .pause ms k, f => .pause ms (k.bind f)
  | .readClock k, f => .readClock fun t => (k t).bind f

instance : Monad Plan where
  pure := .done
  bind := bind

end Plan
end LinkRelay
