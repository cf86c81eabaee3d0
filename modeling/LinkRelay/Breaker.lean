import LinkRelay.Dictionary
set_option autoImplicit false

/-!
# Circuit breaker

A name's circuit is open until a moment of the monotonic clock, in milliseconds. Opening it again
replaces that moment. A check that finds the moment past forgets the circuit.
-/

namespace LinkRelay

structure Breaker where
  openUntil : Dictionary Nat
  deriving Inhabited

namespace Breaker

def closed : Breaker := ⟨.empty⟩

def trip (b : Breaker) (name : String) (duration now : Nat) : Breaker :=
  ⟨b.openUntil.insert name (now + duration)⟩

def isOpenAt (b : Breaker) (name : String) (now : Nat) : Bool :=
  match b.openUntil.get? name with
  | some until_ => now < until_
  | none => false

def check (b : Breaker) (name : String) (now : Nat) : Bool × Breaker :=
  if b.isOpenAt name now then (true, b) else (false, ⟨b.openUntil.erase name⟩)

def openNames (b : Breaker) (now : Nat) : List String :=
  (b.openUntil.entries.filter fun e => now < e.2).map (·.1)

end Breaker
end LinkRelay
