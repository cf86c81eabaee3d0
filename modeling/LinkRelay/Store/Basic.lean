import LinkRelay.Store.Backend
import LinkRelay.Config.Basic
set_option autoImplicit false

/-!
# The record store

The only writer of records. Each provider has at most one record on a path; a new outcome takes
the old record's place in the list, and the moment of the last check never moves back.
-/

namespace LinkRelay

structure Store where
  backend : Backend
  policy : Staleness

namespace Store

def records (s : Store) (path : String) : List Record := s.backend.records path

def paths (s : Store) : List String := s.backend.files.keys

def recordsWith (s : Store) (provider : Provider) (state : FileState) : List (String × Record) :=
  s.backend.files.find provider state

def cachedFile (s : Store) (path : String) : Option CachedFile :=
  (s.records path).findSome? Record.toFile?

def nextRecord (records : List Record) (provider : Provider) (outcome : FileOutcome) (now : Time) :
    Record :=
  let previous := records.find? fun r => r.provider = provider
  let checked := (previous.map fun r => max r.lastChecked now).getD now
  .ofOutcome provider outcome checked previous

def replace (record : Record) : List Record → List Record
  | [] => [record]
  | r :: rest => if r.provider = record.provider then record :: rest else r :: replace record rest

def upsertAt (s : Store) (path : String) (provider : Provider) (outcome : FileOutcome)
    (now : Time) : Except Failure Record × Store :=
  let records := s.records path
  let record := nextRecord records provider outcome now
  match s.backend.save path (replace record records) with
  | (.ok (), backend) => (.ok record, { s with backend })
  | (.error f, backend) => (.error f, { s with backend })

def deleteFile (s : Store) (path : String) : Except Failure Bool × Store :=
  let (answer, backend) := s.backend.delete path
  (answer, { s with backend })

def reopen (s : Store) : Except Failure Store :=
  match s.backend.disk with
  | none => .ok { s with backend := .memory }
  | some d => do return { s with backend := ← Backend.opened d }

end Store
end LinkRelay
