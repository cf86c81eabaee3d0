set_option autoImplicit false

/-!
# White space

The characters with the Unicode property `White_Space`, and text without them at its ends.
-/

namespace LinkRelay.Text

def isBlank (c : Char) : Bool :=
  let n := c.toNat
  (9 ≤ n && n ≤ 13) || n == 0x20 || n == 0x85 || n == 0xA0 || n == 0x1680 ||
    (0x2000 ≤ n && n ≤ 0x200A) || n == 0x2028 || n == 0x2029 || n == 0x202F || n == 0x205F ||
    n == 0x3000

def dropRight (p : Char → Bool) (s : List Char) : List Char := (s.reverse.dropWhile p).reverse

def strip (p : Char → Bool) (s : List Char) : List Char := dropRight p (s.dropWhile p)

def trim (s : List Char) : List Char := strip isBlank s

def blank (s : String) : Bool := s.toList.all isBlank

end LinkRelay.Text
