set_option autoImplicit false

/-!
# Punycode

A label of any characters as ASCII: the ASCII characters first, then the others as distances in
the order of their code points, in digits whose thresholds adapt to the distances seen.
-/

namespace LinkRelay.Punycode

def digitChar (d : Nat) : Char :=
  if d < 26 then Char.ofNat (0x61 + d) else Char.ofNat (0x30 + d - 26)

def digitOf? (c : Char) : Option Nat :=
  if 'a' ≤ c && c ≤ 'z' then some (c.toNat - 0x61)
  else if 'A' ≤ c && c ≤ 'Z' then some (c.toNat - 0x41)
  else if c.isDigit then some (c.toNat - 0x30 + 26)
  else none

def threshold (k bias : Nat) : Nat :=
  if k ≤ bias then 1 else if bias + 26 ≤ k then 26 else k - bias

theorem threshold_pos (k bias : Nat) : 1 ≤ threshold k bias := by
  unfold threshold
  split
  · omega
  · split <;> omega

theorem threshold_le (k bias : Nat) : threshold k bias ≤ 26 := by
  unfold threshold
  split
  · omega
  · split <;> omega

def shrink (delta k : Nat) : Nat × Nat :=
  if 455 < delta then shrink (delta / 35) (k + 36) else (delta, k)
termination_by delta
decreasing_by exact Nat.div_lt_self (by omega) (by omega)

/-- The bias after a distance, among `count` characters written so far. -/
def adapt (delta count : Nat) (first : Bool) : Nat :=
  let delta := if first then delta / 700 else delta / 2
  let (delta, k) := shrink (delta + delta / count) 0
  k + 36 * delta / (delta + 38)

def encodeDistance (bias k n : Nat) : List Char :=
  let t := threshold k bias
  if n < t then [digitChar n]
  else digitChar (t + (n - t) % (36 - t)) :: encodeDistance bias (k + 36) ((n - t) / (36 - t))
termination_by n
decreasing_by
  have h₁ := threshold_pos k bias
  have h₂ := threshold_le k bias
  calc (n - threshold k bias) / (36 - threshold k bias)
      ≤ n - threshold k bias := Nat.div_le_self _ _
    _ < n := by omega

structure Progress where
  out : List Char
  delta : Nat
  bias : Nat
  count : Nat

/-- Passes one character of the label while code point `m` is being written. -/
def pass (basic m : Nat) (p : Progress) (c : Char) : Progress :=
  if c.toNat < m then { p with delta := p.delta + 1 }
  else if c.toNat = m then
    { out := p.out ++ encodeDistance p.bias 36 p.delta, delta := 0
      bias := adapt p.delta (p.count + 1) (p.count == basic), count := p.count + 1 }
  else p

def encodeFrom (label : List Char) (basic : Nat) : List Nat → Nat → Progress → Progress
  | [], _, p => p
  | m :: rest, n, p =>
    let p := label.foldl (pass basic m) { p with delta := p.delta + (m - n) * (p.count + 1) }
    encodeFrom label basic rest (m + 1) { p with delta := p.delta + 1 }

def isBasic (c : Char) : Bool := c.toNat < 0x80

def encode (label : List Char) : List Char :=
  let basic := label.filter isBasic
  let others := ((label.filter fun c => !isBasic c).map Char.toNat).mergeSort.eraseDups
  let p := encodeFrom label basic.length others 0x80 ⟨[], 0, 72, basic.length⟩
  if basic.isEmpty then p.out else basic ++ '-' :: p.out

def decodeDistance (bias : Nat) : Nat → Nat → Nat → List Char → Option (Nat × List Char)
  | _, _, _, [] => none
  | k, weight, value, c :: rest => do
    let digit ← digitOf? c
    let value := value + digit * weight
    let t := threshold k bias
    if digit < t then return (value, rest)
    else decodeDistance bias (k + 36) (weight * (36 - t)) value rest

def decodeFrom : Nat → Nat → Nat → Nat → Bool → List Char → List Char → Option (List Char)
  | _, _, _, _, _, out, [] => some out
  | 0, _, _, _, _, _, _ => none
  | fuel + 1, n, i, bias, first, out, digits => do
    let (distance, rest) ← decodeDistance bias 36 1 0 digits
    let total := i + distance
    let count := out.length + 1
    let n := n + total / count
    let at_ := total % count
    if n < 0xD800 || (0xE000 ≤ n && n ≤ 0x10FFFF) then
      decodeFrom fuel n (at_ + 1) (adapt distance count first) false
        (out.take at_ ++ Char.ofNat n :: out.drop at_) rest
    else none

def decode? (s : List Char) : Option (List Char) :=
  if !s.all isBasic then none
  else
    let (basic, digits) := match s.reverse.dropWhile (· != '-') with
      | [] => ([], s)
      | _ :: before => (before.reverse, s.drop (before.length + 1))
    decodeFrom (digits.length + 1) 0x80 0 72 true basic digits

end LinkRelay.Punycode
