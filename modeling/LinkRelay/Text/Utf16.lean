import LinkRelay.Text.Utf8
set_option autoImplicit false

/-!
# UTF-16

Two bytes make a unit, and a high surrogate before a low one makes a character beyond the basic
plane. What is ill-formed becomes the replacement character, once for each unit or rest of one.
-/

namespace LinkRelay.Utf16

inductive ByteOrder where
  | big
  | little
  deriving DecidableEq, Repr

def ByteOrder.unit (order : ByteOrder) (a b : UInt8) : Nat :=
  match order with
  | .big => a.toNat * 256 + b.toNat
  | .little => b.toNat * 256 + a.toNat

def isHigh (u : Nat) : Bool := 0xD800 ≤ u && u < 0xDC00

def isLow (u : Nat) : Bool := 0xDC00 ≤ u && u < 0xE000

/-- What a unit gives after a high surrogate that still waits for its low one, or after none, and
    the high surrogate that then waits. -/
def feed (waiting : Option Nat) (u : Nat) : List Char × Option Nat :=
  match waiting with
  | some high =>
    if isLow u then ([Char.ofNat (0x10000 + (high - 0xD800) * 0x400 + (u - 0xDC00))], none)
    else if isHigh u then ([Utf8.replacement], some u)
    else ([Utf8.replacement, Char.ofNat u], none)
  | none =>
    if isHigh u then ([], some u)
    else if isLow u then ([Utf8.replacement], none)
    else ([Char.ofNat u], none)

def scanFrom (order : ByteOrder) : Option Nat → Bytes → List Char
  | none, [] => []
  | some _, [] => [Utf8.replacement]
  | _, [_] => [Utf8.replacement]
  | waiting, a :: b :: rest =>
    let (chars, waiting) := feed waiting (order.unit a b)
    chars ++ scanFrom order waiting rest

def decodeLossy (order : ByteOrder) (bytes : Bytes) : String :=
  String.ofList (scanFrom order none bytes)

end LinkRelay.Utf16
