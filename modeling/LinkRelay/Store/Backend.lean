import LinkRelay.Store.Disk
import LinkRelay.Store.Snapshot
set_option autoImplicit false

/-!
# Backends

Where records are kept: in memory alone, or in a file as well. With a file every change is made in
memory first and then writes the whole catalog; a change that cannot be written is taken back.
-/

namespace LinkRelay

structure Backend where
  files : Catalog
  disk : Option Disk

namespace Backend

def memory : Backend := ⟨.empty, none⟩

def load (d : Disk) : Except Failure Catalog :=
  match d.read with
  | .error fault => .error (.store fault)
  | .ok none => .ok .empty
  | .ok (some content) =>
    match Snapshot.read? content with
    | some files => .ok files
    | none => .error (.store (.unparsable d.path "it is no snapshot"))

def opened (d : Disk) : Except Failure Backend := do return ⟨← load d, some d⟩

def records (b : Backend) (path : String) : List Record := b.files.records path

def persist (b : Backend) : Except Failure Unit × Backend :=
  match b.disk with
  | none => (.ok (), b)
  | some d =>
    match Snapshot.write? b.files with
    | none => (.error (.parse .timeBefore1970), b)
    | some content =>
      match d.write content with
      | (.ok (), d) => (.ok (), { b with disk := some d })
      | (.error fault, d) => (.error (.store fault), { b with disk := some d })

/-- Ends a change of a path that was made in memory: the catalog is written, or what stood on the
    path before comes back. -/
def settle (b : Backend) (path : String) (previous : Option (List Record)) :
    Except Failure Unit × Backend :=
  match b.persist with
  | (.ok (), b) => (.ok (), b)
  | (.error f, b) => (.error f, { b with files := b.files.restore path previous })

/-- Replaces all records of a path. If they cannot be written, those before them come back. -/
def save (b : Backend) (path : String) (records : List Record) : Except Failure Unit × Backend :=
  { b with files := b.files.insert path records }.settle path (b.files.get? path)

/-- Removes a path; answers whether it was known. If the removal cannot be written, the records
    come back. -/
def delete (b : Backend) (path : String) : Except Failure Bool × Backend :=
  match b.files.get? path with
  | none => (.ok false, b)
  | some previous =>
    let (answer, b) := { b with files := b.files.erase path }.settle path (some previous)
    (answer.map fun _ => true, b)

end Backend
end LinkRelay
