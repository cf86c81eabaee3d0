import LinkRelay.Json.Value
set_option autoImplicit false

/-!
# Writing JSON

Two layouts of a value: `compact` without any white space, and `pretty`, which puts each item and
each member on a line of its own, two spaces deeper than the line that opens it.
-/

namespace LinkRelay.Json

def hexDigit (n : Nat) : Char := "0123456789abcdef".toList.getD n '0'

def quoteChar (c : Char) : List Char :=
  if c = '"' then ['\\', '"']
  else if c = '\\' then ['\\', '\\']
  else if c = '\x08' then ['\\', 'b']
  else if c = '\t' then ['\\', 't']
  else if c = '\n' then ['\\', 'n']
  else if c = '\x0c' then ['\\', 'f']
  else if c = '\r' then ['\\', 'r']
  else if c.toNat < 0x20 then
    ['\\', 'u', '0', '0', hexDigit (c.toNat / 16), hexDigit (c.toNat % 16)]
  else [c]

def quote (s : String) : List Char := '"' :: s.toList.flatMap quoteChar ++ ['"']

def quoteName (name : Option String) : List Char := quote (name.getD "")

def line (depth : Nat) : List Char := '\n' :: List.replicate (2 * depth) ' '

def atom : Json → List Char
  | .null => "null".toList
  | .bool true => "true".toList
  | .bool false => "false".toList
  | .int i => (toString i).toList
  | .real literal => literal
  | .text t => quoteName t
  | .list _ => "[]".toList
  | .object _ => ['\x7b', '\x7d']

mutual

def pretty (depth : Nat) : Json → List Char
  | .list (item :: items) =>
    '[' :: line (depth + 1) ++ pretty (depth + 1) item ++ prettyItems (depth + 1) items ++
      line depth ++ [']']
  | .object ((name, value) :: members) =>
    '\x7b' :: line (depth + 1) ++ quoteName name ++ [':', ' '] ++ pretty (depth + 1) value ++
      prettyMembers (depth + 1) members ++ line depth ++ ['\x7d']
  | v => atom v

def prettyItems (depth : Nat) : List Json → List Char
  | [] => []
  | item :: items => ',' :: line depth ++ pretty depth item ++ prettyItems depth items

def prettyMembers (depth : Nat) : List (Option String × Json) → List Char
  | [] => []
  | (name, value) :: members =>
    ',' :: line depth ++ quoteName name ++ [':', ' '] ++ pretty depth value ++
      prettyMembers depth members

end

mutual

def compact : Json → List Char
  | .list (item :: items) => '[' :: compact item ++ compactItems items ++ [']']
  | .object ((name, value) :: members) =>
    '\x7b' :: quoteName name ++ [':'] ++ compact value ++ compactMembers members ++ ['\x7d']
  | v => atom v

def compactItems : List Json → List Char
  | [] => []
  | item :: items => ',' :: compact item ++ compactItems items

def compactMembers : List (Option String × Json) → List Char
  | [] => []
  | (name, value) :: members =>
    ',' :: quoteName name ++ [':'] ++ compact value ++ compactMembers members

end

def toPretty (v : Json) : String := String.ofList (pretty 0 v)

def toCompact (v : Json) : String := String.ofList (compact v)

end LinkRelay.Json
