import LinkRelay.Failure
import LinkRelay.Text.Utf8
set_option autoImplicit false

/-!
# The place of a state file

A file in a folder, as far as the store can tell: what stands at its path and at its folder's, and
which of the coming writes will fail at which step. A write goes to a temporary file that then
takes the place of the old one, so that the old content stays until the new one is complete.
-/

namespace LinkRelay

inductive Folder where
  | absent
  | folder
  | file
  deriving DecidableEq, Repr

inductive Target where
  | absent
  | file (content : Bytes)
  | folder
  deriving DecidableEq

inductive WriteStep where
  | makeFolder
  | createTemporary
  | write
  | sync
  | rename
  deriving DecidableEq, Repr

def WriteStep.detail : WriteStep → String
  | .makeFolder => "the folder cannot be made"
  | .createTemporary => "no temporary file can be created"
  | .write => "the temporary file cannot be written"
  | .sync => "the temporary file cannot be synced"
  | .rename => "the temporary file cannot be renamed"

def WriteStep.fault (step : WriteStep) : StoreFault :=
  if step = .rename then .unreplaced step.detail else .unwritten step.detail

structure Disk where
  path : String
  folder : Folder
  target : Target
  /-- For each coming write the step at which it fails, if it fails. -/
  faults : List (Option WriteStep)

namespace Disk

def read (d : Disk) : Except StoreFault (Option Bytes) :=
  match d.folder, d.target with
  | .file, _ => .error (.unreadable d.path "its folder is a file")
  | .absent, _ => .ok none
  | .folder, .absent => .ok none
  | .folder, .file content => .ok (some content)
  | .folder, .folder => .error (.unreadable d.path "it is a folder")

def failingStep? (d : Disk) : Option WriteStep :=
  if d.folder = .file then some .makeFolder
  else match d.faults.head?.join with
    | some step => some step
    | none => if d.target = .folder then some .rename else none

/-- Replaces the content of the file, or leaves it as it is. -/
def write (d : Disk) (content : Bytes) : Except StoreFault Unit × Disk :=
  let after := { d with faults := d.faults.tail }
  let made := if d.folder = .absent then { after with folder := .folder, target := .absent }
    else after
  match d.failingStep? with
  | some .makeFolder => (.error WriteStep.makeFolder.fault, after)
  | some step => (.error step.fault, made)
  | none => (.ok (), { made with target := .file content })

end Disk
end LinkRelay
