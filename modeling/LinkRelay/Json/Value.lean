import LinkRelay.Text.Number
set_option autoImplicit false

/-!
# JSON values

A value keeps the members of an object in order and with repetitions, since a reader of a
particular shape refuses some repetitions and lets others win. A string that does not denote
text (ill-formed bytes, half of a surrogate pair) is kept as `none`: only a reader that wants its
text has to refuse it.
-/

namespace LinkRelay

inductive Json where
  | null
  | bool (b : Bool)
  | int (i : Int)
  | real (literal : List Char)
  | text (t : Option String)
  | list (items : List Json)
  | object (members : List (Option String × Json))

namespace Json

def str (s : String) : Json := .text (some s)

def nat (n : Nat) : Json := .int n

def record (members : List (String × Json)) : Json :=
  .object (members.map fun (name, value) => (some name, value))

def text? : Json → Option String
  | .text t => t
  | _ => none

def bool? : Json → Option Bool
  | .bool b => some b
  | _ => none

def natUpTo? (limit : Nat) : Json → Option Nat
  | .int (.ofNat n) => if n ≤ limit then some n else none
  | _ => none

def u64? : Json → Option Nat := natUpTo? Text.maxU64

def list? : Json → Option (List Json)
  | .list items => some items
  | _ => none

def member? (name : String) : Json → Option Json
  | .object members => (members.reverse.find? fun m => m.1 == some name).map (·.2)
  | _ => none

end Json
end LinkRelay
