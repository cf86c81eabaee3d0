set_option autoImplicit false

/-!
# Characters of a YAML text

Which characters a text may hold, and which of them are breaks and blanks. Reading a text makes
one break of every form of it except the two separators that stand for themselves.
-/

namespace LinkRelay.Yaml

def isBreak (c : Char) : Bool := c == '\n' || c == '\u2028' || c == '\u2029'

def isBlank (c : Char) : Bool := c == ' ' || c == '\t'

def isGap (c : Char) : Bool := isBlank c || isBreak c

def atGap : List Char → Bool
  | [] => true
  | c :: _ => isGap c

def isWordChar (c : Char) : Bool := c.isAlphanum || c == '_' || c == '-'

def isAllowed (c : Char) : Bool :=
  let n := c.toNat
  n == 0x09 || n == 0x0A || n == 0x0D || (0x20 ≤ n && n ≤ 0x7E) || n == 0x85 ||
    (0xA0 ≤ n && n ≤ 0xFFFD) || 0x10000 ≤ n

def isByteOrderMark (c : Char) : Bool := c.toNat == 0xFEFF

def unifyBreaks : List Char → List Char
  | [] => []
  | '\r' :: '\n' :: rest => '\n' :: unifyBreaks rest
  | c :: rest => (if c == '\r' || c == '\u0085' then '\n' else c) :: unifyBreaks rest

/-- The characters of a text without its byte order mark; none if one is not allowed. -/
def characters? (text : String) : Option (List Char) :=
  let cs := match text.toList with
    | c :: rest => if isByteOrderMark c then rest else c :: rest
    | [] => []
  if cs.all isAllowed then some (unifyBreaks cs) else none

def isMarker (c : Char) : List Char → Bool
  | a :: b :: d :: rest => a == c && b == c && d == c && atGap rest
  | _ => false

def isDocumentMarker (s : List Char) : Bool := isMarker '-' s || isMarker '.' s

end LinkRelay.Yaml
