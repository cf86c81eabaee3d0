import LinkRelay.Json.Shape
import LinkRelay.Record
set_option autoImplicit false

/-!
# The written form of records

Records as JSON, as a snapshot of the store holds them. A moment is written as whole seconds and
nanoseconds since 1970 and has no written form before that.
-/

namespace LinkRelay

namespace Time

def lastSecond : Nat := 9223372036854775807

def toJson? (t : Time) : Option Json :=
  match t with
  | .ofNat n => some (.record
    [("secs_since_epoch", .nat (n / 1000000000)), ("nanos_since_epoch", .nat (n % 1000000000))])
  | .negSucc _ => none

/-- Reads a moment. More than a second of nanoseconds carries over. -/
def ofJson? (v : Json) : Option Time := do
  let f ← v.fields? ["secs_since_epoch", "nanos_since_epoch"] true
  let secs ← f.required "secs_since_epoch" Json.u64?
  let nanos ← f.required "nanos_since_epoch" (Json.natUpTo? Text.maxU32)
  if secs + nanos / 1000000000 ≤ lastSecond then
    return ((secs * 1000000000 + nanos : Nat) : Int)
  else none

end Time

def Provider.ofJson? (v : Json) : Option Provider := v.word?.bind ofName?

def FileState.ofJson? (v : Json) : Option FileState := v.word?.bind ofName?

namespace Record

def orNull (v : Option String) : Json := (v.map Json.str).getD .null

def paramsToJson (params : Dictionary String) : Json :=
  .record (params.entries.map fun (name, value) => (name, .str value))

def toJson? (r : Record) : Option Json := do
  let checked ← r.lastChecked.toJson?
  return .record
    [("provider", .str r.provider.name), ("state", .str r.state.name), ("last_checked", checked),
     ("link", orNull r.link), ("size", (r.size.map Json.nat).getD .null),
     ("mime_type", orNull r.mimeType), ("remote_path", orNull r.remotePath),
     ("extra_params", paramsToJson r.params)]

def fieldNames : List String :=
  ["provider", "state", "last_checked", "link", "size", "mime_type", "remote_path",
   "extra_params"]

def ofJson? (v : Json) : Option Record := do
  let f ← v.fields? fieldNames false
  return {
    provider := ← f.required "provider" Provider.ofJson?
    state := ← f.required "state" FileState.ofJson?
    lastChecked := ← f.required "last_checked" Time.ofJson?
    link := ← f.nullable "link" Json.text?
    size := ← f.nullable "size" Json.u64?
    mimeType := ← f.nullable "mime_type" Json.text?
    remotePath := ← f.nullable "remote_path" Json.text?
    params := .ofList (← f.withDefault "extra_params" [] Json.texts?) }

end Record
end LinkRelay
