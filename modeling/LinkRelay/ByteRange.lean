import LinkRelay.Failure
import LinkRelay.Text.Blank
set_option autoImplicit false

/-!
# Byte ranges

A `ByteRange` names at least one byte of a file. A `RangeRequest` is what a client asks for, with
either bound left open; `resolve` cuts it down to the bytes that a file of a given size has.
`Selects` says on its own which positions a request means.
-/

namespace LinkRelay

structure ByteRange where
  first : Nat
  last : Nat
  first_le_last : first ≤ last
  deriving DecidableEq, Repr

namespace ByteRange

def between (first last : Nat) : Except Failure ByteRange :=
  if h : first ≤ last then .ok ⟨first, last, h⟩
  else .error (.range (.backwards first last))

def size (r : ByteRange) : Nat := r.last - r.first + 1

def isFull (r : ByteRange) (fileSize : Nat) : Bool :=
  0 < fileSize && r.first == 0 && r.last == fileSize - 1

def header (r : ByteRange) : String := s!"bytes={r.first}-{r.last}"

end ByteRange

/-- A range as a client asks for it. With the last position alone it is a suffix: that many bytes
    from the end. -/
structure RangeRequest where
  start? : Option Nat
  last? : Option Nat
  deriving DecidableEq, Repr, Inhabited

namespace RangeRequest

def readBound (which : String) (s : List Char) : Except Failure (Option Nat) :=
  match Text.trim s with
  | [] => .ok none
  | digits =>
    match Text.readU64 digits with
    | .ok n => .ok (some n)
    | .error fault => .error (.parse (.bound which fault))

def ofHeader (header : String) : Except Failure RangeRequest := do
  let text := Text.trim header.toList
  let some range := Text.after? "bytes=".toList text
    | throw (.parse (.rangeUnit (String.ofList text)))
  if range.contains ',' then throw (.parse (.rangeList (String.ofList range)))
  let some (start, last) := Text.splitFirst '-' range
    | throw (.parse (.rangeShape (String.ofList range)))
  let start ← readBound "start" start
  let last ← readBound "end" last
  if start.isNone && last.isNone then throw (.parse .rangeUnbounded)
  return ⟨start, last⟩

def header (r : RangeRequest) : String :=
  let bound : Option Nat → String := fun b => (b.map toString).getD ""
  s!"bytes={bound r.start?}-{bound r.last?}"

def resolve (r : RangeRequest) (size : Nat) : Except Failure ByteRange :=
  if size = 0 then .error (.range .emptyFile)
  else
    let last := size - 1
    let upTo (start final : Nat) : Except Failure ByteRange :=
      if last < start then .error (.range (.pastEnd start size))
      else ByteRange.between start final
    match r.start?, r.last? with
    | none, some suffix =>
      if suffix = 0 then .error (.range .emptySuffix) else upTo (size - suffix) last
    | start, final => upTo (start.getD 0) (match final with
      | some final => min final last
      | none => last)

/-- The positions below `size` that a request means; no request means all of them. -/
def Selects (r : Option RangeRequest) (size i : Nat) : Prop :=
  i < size ∧ match r with
  | none => True
  | some ⟨none, none⟩ => True
  | some ⟨some start, none⟩ => start ≤ i
  | some ⟨some start, some last⟩ => start ≤ i ∧ i ≤ last
  | some ⟨none, some suffix⟩ => size ≤ i + suffix

instance (r : Option RangeRequest) (size i : Nat) : Decidable (Selects r size i) := by
  unfold Selects
  split <;> infer_instance

end RangeRequest
end LinkRelay
