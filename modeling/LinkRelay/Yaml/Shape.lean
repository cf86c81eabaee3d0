import LinkRelay.Text.Number
import LinkRelay.Yaml.Node
set_option autoImplicit false

/-!
# Typed reading of YAML nodes

What a scalar says depends on what is asked of it: any scalar is a text, and only a plain one is a
number, a truth value or nothing. Nothing at all is a mapping and a sequence without members.
-/

namespace LinkRelay.Yaml

namespace Tag

def null : String := "tag:yaml.org,2002:null"

def bool : String := "tag:yaml.org,2002:bool"

def int : String := "tag:yaml.org,2002:int"

def localName? (tag : Option String) : Option String := do
  return String.ofList (← Text.after? ['!'] (← tag).toList)

end Tag

def isNullWord (text : String) : Bool := ["~", "null", "Null", "NULL"].contains text

def isNothing (text : String) : Bool := text.isEmpty || isNullWord text

/-- Whether a scalar may be more than text: a plain one, or a literal one whose tag says so. -/
def isTyped (kind : String) (tag : Option String) (style : ScalarStyle) : Bool :=
  style = .plain ∨ (style = .literal ∧ tag = some kind)

def readDigits (base : Nat) (digits : List Char) : Option Nat :=
  if digits.isEmpty then none else (Text.readDigits base Text.maxU64 0 digits).toOption

def readUnsigned : List Char → Option Nat
  | '0' :: 'x' :: digits => readDigits 16 digits
  | '0' :: 'o' :: digits => readDigits 8 digits
  | '0' :: 'b' :: digits => readDigits 2 digits
  | '0' :: _ :: _ => none
  | digits => readDigits 10 digits

def readNumber (text : String) : Option Nat :=
  match text.toList with
  | '+' :: rest => readUnsigned rest
  | s => readUnsigned s

namespace Node

def text? : Node → Option String
  | .scalar _ _ text => some text
  | _ => none

/-- A text that may be missing. A scalar with a tag of the document's own is missing if nothing is
    written. -/
def optionalText? : Node → Option (Option String)
  | .scalar tag .plain text =>
    if tag = some Tag.null then (if isNullWord text then some none else none)
    else if (tag.isNone || (Tag.localName? tag).isSome) && isNothing text then some none
    else some (some text)
  | .scalar _ _ text => some (some text)
  | _ => none

def bool? : Node → Option Bool
  | .scalar tag style text =>
    if !isTyped Tag.bool tag style then none
    else if ["true", "True", "TRUE"].contains text then some true
    else if ["false", "False", "FALSE"].contains text then some false
    else none
  | _ => none

def number? : Node → Option Nat
  | .scalar tag style text => if isTyped Tag.int tag style then readNumber text else none
  | _ => none

def word? : Node → Option String
  | .scalar tag style text =>
    match Tag.localName? tag with
    | some name => if style = .plain ∧ isNothing text then some name else none
    | none => some text
  | _ => none

def isBlank : Node → Bool
  | .scalar _ .plain text => text.isEmpty
  | _ => false

def items? (node : Node) : Option (List Node) :=
  match node with
  | .sequence _ items => some items
  | _ => if node.isBlank then some [] else none

def members? (node : Node) : Option (List (Node × Node)) :=
  match node with
  | .mapping _ members => some members
  | _ => if node.isBlank then some [] else none

end Node

structure Fields where
  document : Document
  fields : List (String × Node)

/-- Reads a mapping whose keys are texts. A name that is known must not come twice. -/
def Node.fields? (d : Document) (node : Node) (known : List String) : Option Fields := do
  let members ← (node.resolve d).members?
  let fields ← members.mapM fun (key, value) => do
    return (← (key.resolve d).text?, value.resolve d)
  let names := (fields.map (·.1)).filter known.contains
  if names.eraseDups.length = names.length then return ⟨d, fields⟩ else none

namespace Fields

variable {α : Type}

def required (f : Fields) (name : String) (read : Node → Option α) : Option α :=
  (f.fields.lookup name).bind read

def withDefault (f : Fields) (name : String) (default : α) (read : Node → Option α) : Option α :=
  match f.fields.lookup name with
  | some node => read node
  | none => some default

def list (f : Fields) (name : String) (read : Node → Option α) : Option (List α) :=
  f.withDefault name [] fun node => do (← node.items?).mapM fun item => read (item.resolve f.document)

end Fields
end LinkRelay.Yaml
