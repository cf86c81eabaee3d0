import LinkRelay.Record
set_option autoImplicit false

/-!
# Catalogs

The records of every known file, by path.
-/

namespace LinkRelay

abbrev Catalog := Dictionary (List Record)

namespace Catalog

def records (c : Catalog) (path : String) : List Record := (c.get? path).getD []

def restore (c : Catalog) (path : String) : Option (List Record) → Catalog
  | some previous => c.insert path previous
  | none => c.erase path

def find (c : Catalog) (provider : Provider) (state : FileState) : List (String × Record) :=
  c.entries.flatMap fun (path, records) =>
    (records.filter fun r => r.provider = provider ∧ r.state = state).map (path, ·)

/-- What a loaded catalog is put right to: no record claims a file that it cannot serve. -/
def repair (c : Catalog) : Catalog := c.map fun _ records => records.map Record.demote

end Catalog
end LinkRelay
