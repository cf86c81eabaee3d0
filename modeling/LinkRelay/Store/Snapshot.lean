import LinkRelay.Json.Printer
import LinkRelay.Json.Reader
import LinkRelay.Record.Format
import LinkRelay.Store.Catalog
set_option autoImplicit false

/-!
# Snapshots

The written form of a catalog: a JSON object from paths to lists of records. A catalog with a
moment before 1970 has none. Reading repairs the catalog.
-/

namespace LinkRelay.Snapshot

def entryToJson? (entry : String × List Record) : Option (String × Json) := do
  return (entry.1, .list (← entry.2.mapM Record.toJson?))

def toJson? (c : Catalog) : Option Json := (c.entries.mapM entryToJson?).map Json.record

def write? (c : Catalog) : Option Bytes :=
  (toJson? c).map fun v => Utf8.encode v.toPretty

def entryOfJson? (member : Option String × Json) : Option (String × List Record) := do
  let path ← member.1
  let items ← member.2.list?
  return (path, ← items.mapM Record.ofJson?)

def ofJson? : Json → Option Catalog
  | .object members => (members.mapM entryOfJson?).map Dictionary.ofList
  | _ => none

def read? (bytes : Bytes) : Option Catalog :=
  ((Json.ofBytes? bytes).bind ofJson?).map Catalog.repair

end LinkRelay.Snapshot
