set_option autoImplicit false

/-!
# UTF-8

Bytes are read as characters one maximal well-formed sequence at a time. `scan` keeps the place
of every ill-formed stretch, so that a strict reader refuses it, a lenient one writes the
replacement character there, and a reader that only skips a stretch does neither.
-/

namespace LinkRelay

abbrev Bytes := List UInt8

namespace Utf8

def encode (s : String) : Bytes := s.toList.flatMap String.utf8EncodeChar

/-- A character under way: the bytes still owed, the bounds of the next one, and the value so far. -/
structure Pending where
  owed : Nat
  low : Nat
  high : Nat
  value : Nat

/-- What a byte at the start of a character begins: the character itself, a longer one, or
    nothing. -/
def start (b : Nat) : Option (Char ⊕ Pending) :=
  if b < 0x80 then some (.inl (Char.ofNat b))
  else if 0xC2 ≤ b ∧ b ≤ 0xDF then some (.inr ⟨1, 0x80, 0xBF, b - 0xC0⟩)
  else if b = 0xE0 then some (.inr ⟨2, 0xA0, 0xBF, 0⟩)
  else if b = 0xED then some (.inr ⟨2, 0x80, 0x9F, 0xD⟩)
  else if 0xE1 ≤ b ∧ b ≤ 0xEF then some (.inr ⟨2, 0x80, 0xBF, b - 0xE0⟩)
  else if b = 0xF0 then some (.inr ⟨3, 0x90, 0xBF, 0⟩)
  else if 0xF1 ≤ b ∧ b ≤ 0xF3 then some (.inr ⟨3, 0x80, 0xBF, b - 0xF0⟩)
  else if b = 0xF4 then some (.inr ⟨3, 0x80, 0x8F, 4⟩)
  else none

def enter (b : Nat) : List (Option Char) × Option Pending :=
  match start b with
  | some (.inl c) => ([some c], none)
  | some (.inr p) => ([], some p)
  | none => ([none], none)

def feed (pending : Option Pending) (byte : UInt8) : List (Option Char) × Option Pending :=
  let b := byte.toNat
  match pending with
  | none => enter b
  | some p =>
    if p.low ≤ b ∧ b ≤ p.high then
      let value := p.value * 64 + (b - 0x80)
      if p.owed ≤ 1 then ([some (Char.ofNat value)], none)
      else ([], some ⟨p.owed - 1, 0x80, 0xBF, value⟩)
    else
      let (pieces, next) := enter b
      (none :: pieces, next)

def scanFrom : Option Pending → Bytes → List (Option Char)
  | none, [] => []
  | some _, [] => [none]
  | pending, b :: rest =>
    let (pieces, next) := feed pending b
    pieces ++ scanFrom next rest

/-- The characters of a byte sequence, with `none` for each maximal ill-formed stretch. -/
def scan (bytes : Bytes) : List (Option Char) := scanFrom none bytes

def decode? (bytes : Bytes) : Option String := ((scan bytes).mapM id).map String.ofList

def replacement : Char := Char.ofNat 0xFFFD

/-- Decoding that writes the replacement character for what is ill-formed. -/
def decodeLossy (bytes : Bytes) : String :=
  String.ofList ((scan bytes).map fun c => c.getD replacement)

/-- Whether text can be cut before a byte: at its start, at its end, and where a character begins. -/
def isBoundary (bytes : Bytes) (i : Nat) : Bool :=
  i == 0 || i == bytes.length || bytes[i]?.any fun b => decide b.IsUTF8FirstByte

/-- Walks back from a byte until text can be cut there; `none` if the walk goes on past the start. -/
def walkBack? (bytes : Bytes) (i : Nat) : Option Nat :=
  if isBoundary bytes i then some i
  else match i with
    | 0 => none
    | before + 1 => walkBack? bytes before

theorem isSome_walkBack? (bytes : Bytes) (i : Nat) : (walkBack? bytes i).isSome = true := by
  induction i with
  | zero => rfl
  | succ i ih =>
    rw [walkBack?]
    split
    · rfl
    · exact ih

def boundaryUpTo (bytes : Bytes) (i : Nat) : Nat :=
  (walkBack? bytes i).get (isSome_walkBack? bytes i)

end Utf8
end LinkRelay
