import LinkRelay.Json.Value
set_option autoImplicit false

/-!
# Values of a fixed shape

A value with named fields is an object, or a list of the fields in their declared order. In an
object a declared name may stand once, and other names are passed over unless the shape is closed;
in a list only fields from the end may be missing, and nothing may follow the last.
-/

namespace LinkRelay.Json

/-- The fields found in a value, and whether they stood under their names. -/
structure Fields where
  named : Bool
  values : List (String × Json)

def declared? (names : List String) (closed : Bool) :
    List (Option String × Json) → Option (List (String × Json))
  | [] => some []
  | (none, _) :: _ => none
  | (some name, value) :: rest => do
    let found ← declared? names closed rest
    if names.contains name then
      if found.any fun f => f.1 == name then none else return (name, value) :: found
    else if closed then none else return found

def fields? (names : List String) (closed : Bool) : Json → Option Fields
  | .object members => (declared? names closed members).map (⟨true, ·⟩)
  | .list items => if items.length ≤ names.length then some ⟨false, names.zip items⟩ else none
  | _ => none

namespace Fields

variable {α : Type}

def value? (f : Fields) (name : String) : Option Json := f.values.lookup name

def required (f : Fields) (name : String) (read : Json → Option α) : Option α :=
  (f.value? name).bind read

def withDefault (f : Fields) (name : String) (default : α) (read : Json → Option α) : Option α :=
  match f.value? name with
  | some v => read v
  | none => some default

def orNull (read : Json → Option α) : Json → Option (Option α)
  | .null => some none
  | v => (read v).map some

def nullable (f : Fields) (name : String) (read : Json → Option α) : Option (Option α) :=
  match f.value? name with
  | some v => orNull read v
  | none => if f.named then some none else none

end Fields

/-- One of several words: a text, or an object whose only member has that name and is null. -/
def word? : Json → Option String
  | .text t => t
  | .object [(name, .null)] => name
  | _ => none

def texts? : Json → Option (List (String × String))
  | .object members => members.mapM fun (name, value) => do return (← name, ← value.text?)
  | _ => none

end LinkRelay.Json
