import LinkRelay.Text.Split
import LinkRelay.Text.Utf8
set_option autoImplicit false

/-!
# Percent encoding

A character outside its part's own set is written as the bytes of its UTF-8 form, each as a
percent sign and two digits. The parts of a URL differ in what they escape; whatever is not
printable ASCII is escaped in all of them.
-/

namespace LinkRelay.Percent

def upperDigit (n : Nat) : Char := "0123456789ABCDEF".toList.getD n '0'

def encodeByte (b : UInt8) : List Char :=
  ['%', upperDigit (b.toNat / 16), upperDigit (b.toNat % 16)]

def encodeChar (c : Char) : List Char := (String.utf8EncodeChar c).flatMap encodeByte

def encode (p : Char → Bool) (s : List Char) : List Char :=
  s.flatMap fun c => if p c then encodeChar c else [c]

def inControls (c : Char) : Bool := c.toNat < 0x20 || 0x7F ≤ c.toNat

def inFragment (c : Char) : Bool := inControls c || " \"<>`".toList.contains c

def inPath (c : Char) : Bool := inFragment c || "#?\x7b\x7d".toList.contains c

def inUserInfo (c : Char) : Bool := inPath c || "/:;=@[\\]^|".toList.contains c

def inSegment (special : Bool) (c : Char) : Bool :=
  inPath c || c == '/' || c == '%' || (special && c == '\\')

def inQuery (special : Bool) (c : Char) : Bool :=
  inControls c || " \"#<>".toList.contains c || (special && c == '\'')

def decode : List Char → Bytes
  | [] => []
  | '%' :: a :: b :: rest =>
    if Text.isHexDigit a && Text.isHexDigit b then
      UInt8.ofNat (Text.digitValue a * 16 + Text.digitValue b) :: decode rest
    else 0x25 :: decode (a :: b :: rest)
  | c :: rest => String.utf8EncodeChar c ++ decode rest

def plainInForm (c : Char) : Bool := c.isAlphanum || "*-._".toList.contains c

def encodeForm (s : String) : List Char :=
  s.toList.flatMap fun c => if c = ' ' then ['+'] else if plainInForm c then [c] else encodeChar c

def form (pairs : List (String × String)) : String :=
  String.ofList (List.intercalate ['&']
    (pairs.map fun (name, value) => encodeForm name ++ '=' :: encodeForm value))

end LinkRelay.Percent
