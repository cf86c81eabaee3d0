import LinkRelay.Text.Lowercase
import LinkRelay.Text.Split
import LinkRelay.Url.Punycode
set_option autoImplicit false

/-!
# Domains

The ASCII form of a domain name rests on tables of all characters, so a URL is read by rules that
are given. The rules here have tables of most characters: each is brought to the form that names are
compared in, or refused; then each label that needs characters beyond ASCII is written in Punycode.
-/

namespace LinkRelay.Domain

def forbidden (c : Char) : Bool :=
  c.toNat ≤ 0x20 || c.toNat == 0x7F || "%#/:<>?@[\\]^|".toList.contains c

def isPlain (c : Char) : Bool := c.isLower || c.isDigit || c == '.'

theorem lt_of_isPlain {c : Char} (h : isPlain c = true) : 0x20 < c.toNat := by
  rw [isPlain, Bool.or_eq_true, Bool.or_eq_true, beq_iff_eq] at h
  obtain (hlower | hdigit) | rfl := h
  · have hle : 'a'.val ≤ c.val := of_decide_eq_true (Bool.and_eq_true_iff.1 hlower).1
    exact Nat.lt_of_lt_of_le (by decide) (UInt32.le_iff_toNat_le.1 hle)
  · have hle : '0'.val ≤ c.val := of_decide_eq_true (Bool.and_eq_true_iff.1 hdigit).1
    exact Nat.lt_of_lt_of_le (by decide) (UInt32.le_iff_toNat_le.1 hle)
  · decide

/-- The rules by which domain names take their ASCII form. -/
structure Rules where
  toAscii? : List Char → Option (List Char)
  keeps {name : List Char} (h : name.all isPlain = true) : toAscii? name = some name
  /-- Neither a control character nor a blank stands in a name. -/
  refuses {name : List Char} {c : Char} (hmem : c ∈ name) (hc : c.toNat ≤ 0x20) :
    toAscii? name = none

/-- Characters that count for nothing: soft hyphens, joiners of words, variation selectors. -/
def isIgnorable (n : Nat) : Bool :=
  n == 0xAD || n == 0x34F || (0x180B ≤ n && n ≤ 0x180F && n ≠ 0x180E) || n == 0x200B ||
    n == 0x2060 || n == 0x2064 || (0xFE00 ≤ n && n ≤ 0xFE0F) || n == 0xFEFF ||
    (0xE0100 ≤ n && n ≤ 0xE01EF)

def isFullStop (n : Nat) : Bool := n == 0x3002 || n == 0xFF0E || n == 0xFF61

/-- Controls, blanks, marks of direction and what has no meaning of its own in text. -/
def isRefused (n : Nat) : Bool :=
  (0x80 ≤ n && n ≤ 0xA0) || n == 0x1680 || n == 0x180E || (0x2000 ≤ n && n ≤ 0x200A) ||
    (0x200C ≤ n && n ≤ 0x200F) || (0x2028 ≤ n && n ≤ 0x202F) || (0x205F ≤ n && n ≤ 0x206F) ||
    n == 0x3000 || (0xE000 ≤ n && n ≤ 0xF8FF) || (0xFDD0 ≤ n && n ≤ 0xFDEF) ||
    (0xFFF0 ≤ n && n ≤ 0xFFFF) || 0xE0000 ≤ n

def substitutes : List (Nat × String) :=
  [(0xAA, "a"), (0xB2, "2"), (0xB3, "3"), (0xB5, "μ"), (0xB9, "1"), (0xBA, "o"), (0xBC, "1⁄4"),
   (0xBD, "1⁄2"), (0xBE, "3⁄4"), (0x132, "ij"), (0x133, "ij"), (0x17F, "s"), (0x2122, "tm")]

/-- What a character of a name comes to. Wide forms of ASCII count as ASCII. -/
def mapChar? (c : Char) : Option (List Char) :=
  let n := c.toNat
  if n < 0x80 then some [c.toLower]
  else if isIgnorable n then some []
  else if isFullStop n then some ['.']
  else if 0xFF01 ≤ n && n ≤ 0xFF5E then some [(Char.ofNat (n - 0xFEE0)).toLower]
  else if isRefused n then none
  else match substitutes.lookup n with
    | some s => some s.toList
    | none => some (Text.lowercaseChar c)

def normalize? (name : List Char) : Option (List Char) := (name.mapM mapChar?).map List.flatten

def isNormal (label : List Char) : Bool := normalize? label == some label

def label? (s : List Char) : Option (List Char) :=
  match Text.after? "xn--".toList s with
  | some coded => do
    let plain ← Punycode.decode? coded
    if plain.all Punycode.isBasic || !isNormal plain then none
    else return "xn--".toList ++ Punycode.encode plain
  | none => if s.all Punycode.isBasic then some s else some ("xn--".toList ++ Punycode.encode s)

def commonAscii? (name : List Char) : Option (List Char) :=
  if name.all isPlain then some name
  else if name.any forbidden then none
  else do
    let labels ← (Text.splitAll '.' (← normalize? name)).mapM label?
    let ascii := List.intercalate ['.'] labels
    if ascii.any forbidden then none else return ascii

def Rules.common : Rules where
  toAscii? := commonAscii?
  keeps h := if_pos h
  refuses {name c} hmem hc := by
    have hnot : ¬ name.all isPlain = true := fun h =>
      absurd hc (Nat.not_le.2 (lt_of_isPlain (List.all_eq_true.1 h c hmem)))
    have hforbidden : forbidden c = true := by
      rw [forbidden, decide_eq_true hc, Bool.true_or, Bool.true_or]
    rw [commonAscii?, if_neg hnot, if_pos (List.any_eq_true.2 ⟨c, hmem, hforbidden⟩)]

end LinkRelay.Domain
