import LinkRelay.Proofs.Dictionary
import LinkRelay.Store.Backend
set_option autoImplicit false

/-!
# Changes that happen or do not

A backend changes its catalog before it writes it, and takes the change back when the write fails.
Saves and deletions come to the same as one change of the whole catalog.
-/

namespace LinkRelay

namespace Disk

variable {d d' : Disk} {content : Bytes}

theorem read_of_write_ok (h : d.write content = (.ok (), d')) : d'.read = .ok (some content) := by
  cases hstep : d.failingStep? with
  | some step => cases step <;> simp [write, hstep] at h
  | none =>
    have hfolder : d.folder ≠ .file := by
      intro hfile
      rw [failingStep?, if_pos hfile] at hstep
      cases hstep
    simp only [write, hstep] at h
    cases h
    cases hd : d.folder with
    | absent => rfl
    | folder => rfl
    | file => exact absurd hd hfolder

theorem read_of_write_error {fault : StoreFault} (h : d.write content = (.error fault, d')) :
    d'.read = d.read := by
  have hmade : (if d.folder = .absent then
      ({ d with faults := d.faults.tail, folder := .folder, target := .absent } : Disk)
      else { d with faults := d.faults.tail }).read = d.read := by
    by_cases hd : d.folder = .absent
    · rw [if_pos hd, read, read, hd]
    · rw [if_neg hd]
      rfl
  cases hstep : d.failingStep? with
  | none => simp [write, hstep] at h
  | some step =>
    cases step with
    | makeFolder =>
      simp only [write, hstep] at h
      cases h
      rfl
    | createTemporary | write | sync | rename =>
      simp only [write, hstep] at h
      cases h
      exact hmade

theorem write_isOk (d : Disk) (content : Bytes) :
    (d.write content).1.isOk = d.failingStep?.isNone := by
  cases hstep : d.failingStep? with
  | none => simp only [write, hstep]; rfl
  | some step => cases step <;> simp only [write, hstep] <;> rfl

end Disk

namespace Backend

/-- Puts a catalog in the place of the old one, if it can be written. -/
def change (b : Backend) (files : Catalog) : Except Failure Unit × Backend :=
  match ({ b with files }).persist with
  | (.ok (), after) => (.ok (), after)
  | (.error f, after) => (.error f, { after with files := b.files })

variable (b : Backend) (files : Catalog) (path : String)

theorem persist_files : b.persist.2.files = b.files := by
  unfold persist
  split
  · rfl
  · split
    · rfl
    · split <;> rfl

theorem settle_eq_change {path : String}
    (h : Catalog.restore files path (b.files.get? path) = b.files) :
    { b with files }.settle path (b.files.get? path) = b.change files := by
  have hfiles := persist_files { b with files }
  rw [settle, change]
  rcases hpersist : persist { b with files } with ⟨answer, after⟩
  rw [hpersist] at hfiles
  change after.files = files at hfiles
  cases answer with
  | ok _ => rfl
  | error f =>
    change (Except.error f, { after with files := after.files.restore path _ }) = _
    rw [hfiles, h]

theorem save_eq_change (records : List Record) :
    b.save path records = b.change (b.files.insert path records) := by
  refine b.settle_eq_change _ ?_
  cases hprevious : b.files.get? path with
  | some previous => exact Dictionary.insert_insert_old hprevious records
  | none => exact Dictionary.erase_insert_new hprevious records

theorem delete_of_unknown {path : String} (h : b.files.get? path = none) :
    b.delete path = (.ok false, b) := by
  rw [delete, h]

theorem delete_eq_change {path : String} {previous : List Record}
    (h : b.files.get? path = some previous) :
    b.delete path = ((b.change (b.files.erase path)).1.map fun _ => true,
      (b.change (b.files.erase path)).2) := by
  have hsettle : { b with files := b.files.erase path }.settle path (some previous) =
      b.change (b.files.erase path) :=
    h ▸ b.settle_eq_change _ (h ▸ Dictionary.insert_erase_old h)
  simp only [delete, h, hsettle]

/-- What a change can come to: it happens in memory alone, or on the disk as well, or not at all. -/
inductive Changed (b : Backend) (files : Catalog) : Except Failure Unit × Backend → Prop where
  | memory (hdisk : b.disk = none) : Changed b files (.ok (), ⟨files, none⟩)
  | written {d after : Disk} {content : Bytes} (hdisk : b.disk = some d)
      (hcontent : Snapshot.write? files = some content)
      (hwrite : d.write content = (.ok (), after)) :
      Changed b files (.ok (), ⟨files, some after⟩)
  | refused {d after : Disk} (f : Failure) (hdisk : b.disk = some d) (hread : after.read = d.read) :
      Changed b files (.error f, ⟨b.files, some after⟩)

theorem changed : Changed b files (b.change files) := by
  cases hdisk : b.disk with
  | none =>
    simp only [change, persist, hdisk]
    exact .memory hdisk
  | some d =>
    cases hcontent : Snapshot.write? files with
    | none =>
      simp only [change, persist, hdisk, hcontent]
      exact .refused _ hdisk rfl
    | some content =>
      rcases hwrite : d.write content with ⟨answer, after⟩
      cases answer with
      | ok _ =>
        simp only [change, persist, hdisk, hcontent, hwrite]
        exact .written hdisk hcontent hwrite
      | error fault =>
        simp only [change, persist, hdisk, hcontent, hwrite]
        exact .refused _ hdisk (Disk.read_of_write_error hwrite)

theorem refusal_of_change {b b' : Backend} {files : Catalog} {f : Failure}
    (h : b.change files = (.error f, b')) :
    (Snapshot.write? files = none ∧ f = .parse .timeBefore1970) ∨ ∃ fault, f = .store fault := by
  rw [change, persist] at h
  dsimp only at h
  cases hdisk : b.disk with
  | none =>
    rw [hdisk] at h
    cases h
  | some d =>
    rw [hdisk] at h
    dsimp only at h
    cases hcontent : Snapshot.write? files with
    | none =>
      rw [hcontent] at h
      cases h
      exact .inl ⟨rfl, rfl⟩
    | some content =>
      rw [hcontent] at h
      dsimp only at h
      rcases hwrite : d.write content with ⟨_ | _, after⟩ <;> rw [hwrite] at h <;> cases h
      exact .inr ⟨_, rfl⟩

theorem change_of_memory {b : Backend} (h : b.disk = none) :
    b.change files = (.ok (), ⟨files, none⟩) := by
  rw [change, persist, h]

end Backend

end LinkRelay
