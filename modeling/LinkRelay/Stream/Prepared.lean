import LinkRelay.ByteRange
import LinkRelay.CachedFile
import LinkRelay.Http.Exchange
import LinkRelay.Text.Split
set_option autoImplicit false

/-!
# Media requests

A request for the bytes of a file at its link, all of them or a range, and what a response must be
for its body to count as those bytes. A range that is the whole file is asked for without a
`Range` header.
-/

namespace LinkRelay

/-- A media request: where, which bytes, and how many. -/
structure Prepared where
  address : String
  range : Option ByteRange
  expected : Nat
  deriving DecidableEq, Repr

namespace Prepared

def rangeHeader (p : Prepared) : Option String := p.range.map (·.header)

def whole (file : CachedFile) : Prepared := ⟨file.link, none, file.size⟩

def ofByteRange (file : CachedFile) (range : ByteRange) : Prepared :=
  if range.isFull file.size then whole file else ⟨file.link, some range, range.size⟩

def ofRange (file : CachedFile) : Option RangeRequest → Except Failure Prepared
  | none => .ok (whole file)
  | some request => (request.resolve file.size).map (ofByteRange file)

end Prepared

def readPosition (which : String) (digits : List Char) : Except Failure Nat :=
  (Text.readU64 (Text.trim digits)).mapError fun fault => .parse (.bound which fault)

def readContentRange (header : String) : Except Failure (Nat × Nat) := do
  let some range := Text.after? "bytes ".toList (Text.trim header.toList)
    | throw (.parse (.contentRangeUnit header))
  let some (span, _) := Text.splitFirst '/' range
    | throw (.parse (.contentRangeTotal (String.ofList range)))
  let some (first, last) := Text.splitFirst '-' span
    | throw (.parse (.contentRangeSpan (String.ofList span)))
  return (← readPosition "start" first, ← readPosition "end" last)

def checkContentRange (range : ByteRange) (header : String) : Except Failure Unit := do
  if (← readContentRange header) ≠ (range.first, range.last) then
    throw (.parse (.contentRangeMismatch range.first range.last header))

/-- Holds a response against its request. The answer to a ranged request says so by its status;
    a `Content-Range` header that is no text counts as absent. -/
def Prepared.accept (decoders : Http.Decoders) (p : Prepared) (r : Http.Response) :
    Except Failure Http.Response := do
  if !r.isSuccess then throw (.ofStatus r.status p.address (r.text decoders))
  if let some range := p.range then
    if r.status ≠ 206 then
      throw (.status .unexpected r.status p.address s!"expected 206 for range {range.header}")
    if let some header := r.textHeader? "Content-Range" then checkContentRange range header
  return r

namespace Prepared

def draft (p : Prepared) : Http.Draft := { Http.Draft.get p.address with range := p.rangeHeader }

def send (p : Prepared) : Http.OnWire Http.Response := do
  let platform ← Http.OnWire.platform
  p.accept platform.decoders (← Http.send p.draft)

end Prepared

def statusOf (d : Http.Draft) : Http.OnWire (Option Nat) := ExceptT.mk fun wire =>
  match (Http.send d).run wire with
  | (.ok r, wire) => (.ok (some r.status), wire)
  | (.error _, wire) => (.ok none, wire)

def isGood (status : Option Nat) : Bool := status.any fun s => 200 ≤ s && s < 300

/-- Whether a link is alive. Where a HEAD request is refused, the first byte is asked for. -/
def isLinkAlive (link : String) : Http.OnWire Bool := do
  let head ← statusOf { Http.Draft.get link with method := .head }
  if head = some 405 ∨ head = some 501 then
    return isGood (← statusOf { Http.Draft.get link with range := some "bytes=0-0" })
  else return isGood head

end LinkRelay
