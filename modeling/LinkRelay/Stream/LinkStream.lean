import LinkRelay.Stream.Prepared
set_option autoImplicit false

/-!
# Streams over links

A stream delivers the bytes of a media request chunk by chunk. When its response breaks off it
asks once for a fresh link and goes on from the byte it has got to; when that response breaks off
too, the failure is the reader's.
-/

namespace LinkRelay

/-- What a stream needs: someone who sends requests, and someone who knows fresh links. -/
structure Supply (m : Type → Type) where
  send : Prepared → ExceptT Failure m Http.Response
  refresh : CachedFile → ExceptT Failure m CachedFile

structure LinkStream where
  file : CachedFile
  range : Option ByteRange
  expected : Nat
  offset : Nat
  status : Nat
  chunks : List Bytes
  broken : Bool
  refreshed : Bool

namespace LinkStream

variable {m : Type → Type} [Monad m]

def ofResponse (file : CachedFile) (p : Prepared) (r : Http.Response) : LinkStream where
  file := file
  range := p.range
  expected := p.expected
  offset := 0
  status := r.status
  chunks := r.chunks
  broken := r.broken
  refreshed := false

def start (supply : Supply m) (file : CachedFile) (p : Prepared) : ExceptT Failure m LinkStream := do
  return ofResponse file p (← supply.send p)

def pull (s : LinkStream) : Except Failure (Option Bytes) × LinkStream :=
  match s.chunks with
  | chunk :: rest => (.ok (some chunk), { s with chunks := rest, offset := s.offset + chunk.length })
  | [] =>
    if s.broken then (.error (.parse .response), { s with broken := false })
    else if s.expected ≤ s.offset then (.ok none, s)
    else (.error (.network (.closedEarly s.offset s.expected)), s)

/-- The position after the delivered bytes. Sizes are words of 64 bits, and a sum of positions that
    leaves them starts again from zero; a size that is no word has positions without end. -/
def position (s : LinkStream) (fresh : CachedFile) : Nat :=
  let sum := ((s.range.map (·.first)).getD 0) + s.offset
  if fresh.size ≤ Text.maxU64 then sum % (Text.maxU64 + 1) else sum

def rest (s : LinkStream) (fresh : CachedFile) : Except Failure Prepared := do
  let first := s.position fresh
  let last := (s.range.map (·.last)).getD (fresh.size - 1)
  return .ofByteRange fresh (← ByteRange.between first last)

def switch (s : LinkStream) (fresh : CachedFile) (r : Http.Response) : LinkStream :=
  { s with file := fresh, status := r.status, chunks := r.chunks, broken := r.broken }

def resume (supply : Supply m) (s : LinkStream) : ExceptT Failure m LinkStream := do
  let fresh ← supply.refresh s.file
  let r ← supply.send (← s.rest fresh)
  return s.switch fresh r

/-- The next chunk, or `none` at the end. -/
def next (supply : Supply m) (s : LinkStream) : m (Except Failure (Option Bytes) × LinkStream) :=
  match s.pull with
  | (.ok chunk, s) => pure (.ok chunk, s)
  | (.error f, s) =>
    if s.refreshed then pure (.error f, s)
    else do
      let s := { s with refreshed := true }
      match ← (s.resume supply).run with
      | .ok s => pure s.pull
      | .error f => pure (.error f, s)

structure Reading where
  chunks : List Bytes
  ending : Except Failure Unit
  stream : LinkStream

def readAll (supply : Supply m) : Nat → LinkStream → m Reading
  | 0, s => pure ⟨[], .ok (), s⟩
  | limit + 1, s => do
    match ← s.next supply with
    | (.ok (some chunk), s) =>
      let r ← readAll supply limit s
      return { r with chunks := chunk :: r.chunks }
    | (.ok none, s) => return ⟨[], .ok (), s⟩
    | (.error f, s) => return ⟨[], .error f, s⟩

end LinkStream
end LinkRelay
