import LinkRelay.Proofs.Store.History
import LinkRelay.Proofs.Store.Snapshot
set_option autoImplicit false

/-!
# A store on a disk that fails

A store on a file is run with writes that fail at any of their steps and with the file opened anew
between any two calls. It answers what a store in memory answers when the failed calls and the
openings are left out, and the file holds what the store holds all along.
-/

namespace LinkRelay

section Calls

inductive StoreCall where
  | state (path : String)
  | cachedFile (path : String)
  | recordsWith (provider : Provider) (state : FileState)
  | paths
  | isStale (record : Record) (now : Time)
  | write (w : Write)
  | reopen

def StoreAnswer.fails : StoreAnswer → Bool
  | .upserted (.error _) | .deleted (.error _) | .reopened (.error _) => true
  | _ => false

namespace Store

def write (s : Store) : Write → StoreAnswer × Store
  | .upsert path provider outcome now =>
    let (result, t) := s.upsertAt path provider outcome now
    (.upserted result, t)
  | .delete path =>
    let (result, t) := s.deleteFile path
    (.deleted result, t)

def call (s : Store) : StoreCall → StoreAnswer × Store
  | .state path => (.records (s.records path), s)
  | .cachedFile path => (.file (s.cachedFile path), s)
  | .recordsWith provider state => (.found (s.recordsWith provider state), s)
  | .paths => (.paths s.paths, s)
  | .isStale record now => (.stale (s.policy.isStale record now), s)
  | .write w => s.write w
  | .reopen =>
    match s.reopen with
    | .ok t => (.reopened (.ok ()), t)
    | .error f => (.reopened (.error f), s)

def afterCalls (s : Store) (calls : List StoreCall) : Store :=
  calls.foldl (fun s c => (s.call c).2) s

def trace (s : Store) : List StoreCall → List (StoreCall × StoreAnswer)
  | [] => []
  | c :: calls => (c, (s.call c).1) :: trace (s.call c).2 calls

end Store

def StoreCall.isReopen : StoreCall → Bool
  | .reopen => true
  | _ => false

/-- Whether a call of a run is left when openings and failures are left out. -/
def isKept (e : StoreCall × StoreAnswer) : Bool := !e.1.isReopen && !e.2.fails

/-- What the types of sizes and moments promise of a write. -/
def Write.Fits : Write → Prop
  | .upsert _ _ outcome now => (∀ file ∈ outcome.file?, file.size ≤ Text.maxU64) ∧ now.Fits
  | .delete _ => True

def StoreCall.Fits : StoreCall → Prop
  | .write w => w.Fits
  | _ => True

end Calls

section Sound

theorem Time.fits_max {t u : Time} (ht : t.Fits) (hu : u.Fits) : Time.Fits (max t u) := by
  rcases max_choice t u with h | h
  · rw [h]
    exact ht
  · rw [h]
    exact hu

structure Record.Sound (r : Record) : Prop extends r.Fits where
  consistent : r.isConsistent = true

theorem Record.sound_ofOutcome {provider : Provider} {outcome : FileOutcome} {moment : Time}
    {previous : Option Record} (hsize : ∀ file ∈ outcome.file?, file.size ≤ Text.maxU64)
    (hmoment : moment.Fits) (hprevious : ∀ r ∈ previous, r.Sound) :
    (Record.ofOutcome provider outcome moment previous).Sound := by
  cases hfile : outcome.file? with
  | some file =>
    rw [ofOutcome_of_file? hfile]
    refine ⟨⟨fun n hn => ?_, hmoment⟩, decide_eq_true (.inr ⟨rfl, rfl⟩)⟩
    cases hn
    exact hsize file hfile
  | none =>
    have hstate : outcome.state ≠ .cached := by
      cases outcome with
      | cached file => cases hfile
      | missing => nofun
      | failed trouble => nofun
    rw [ofOutcome_of_file?_eq_none hfile]
    refine ⟨⟨fun n hn => ?_, hmoment⟩, decide_eq_true (.inl hstate)⟩
    obtain ⟨r, hr, hn⟩ := Option.bind_eq_some_iff.1 hn
    exact (hprevious r hr).size n hn

namespace Store

variable {records : List Record}

theorem sound_nextRecord {provider : Provider} {outcome : FileOutcome} {now : Time}
    (hrecords : ∀ r ∈ records, r.Sound) (hsize : ∀ file ∈ outcome.file?, file.size ≤ Text.maxU64)
    (hnow : now.Fits) : (nextRecord records provider outcome now).Sound := by
  have hprevious : ∀ r ∈ records.find? fun r => r.provider = provider, r.Sound :=
    fun r hr => hrecords r (List.mem_of_find?_eq_some hr)
  refine Record.sound_ofOutcome hsize ?_ hprevious
  cases hfind : records.find? fun r => r.provider = provider with
  | none => exact hnow
  | some r => exact Time.fits_max (hprevious r hfind).checked hnow

theorem forall_replace {p : Record → Prop} {record : Record} (hrecord : p record)
    (hrecords : ∀ r ∈ records, p r) : ∀ r ∈ replace record records, p r := by
  induction records with
  | nil =>
    intro r hr
    rw [List.mem_singleton.1 hr]
    exact hrecord
  | cons first rest ih =>
    have hrest : ∀ r ∈ rest, p r := fun r hr => hrecords r (List.mem_cons_of_mem _ hr)
    rw [replace]
    by_cases he : first.provider = record.provider
    · rw [if_pos he]
      exact List.forall_mem_cons.2 ⟨hrecord, hrest⟩
    · rw [if_neg he]
      exact List.forall_mem_cons.2 ⟨hrecords first List.mem_cons_self, ih hrest⟩

end Store

namespace Catalog

variable {p : Record → Prop} {c : Catalog}

theorem Every.insert (h : c.Every p) {path : String} {records : List Record}
    (hrecords : ∀ r ∈ records, p r) : Every p (c.insert path records) := by
  intro e he
  rcases Dictionary.mem_place he with rfl | he
  · exact hrecords
  · exact h e he

theorem Every.erase (h : c.Every p) (path : String) : Every p (c.erase path) :=
  fun e he => h e (List.mem_of_mem_filter he)

theorem Every.records (h : c.Every p) (path : String) : ∀ r ∈ c.records path, p r := by
  intro r hr
  rw [Catalog.records] at hr
  cases hget : c.get? path with
  | none =>
    rw [hget] at hr
    cases hr
  | some records =>
    rw [hget] at hr
    exact h _ ((c.mem_entries path records).2 hget) r hr

theorem Every.apply (h : c.Every Record.Sound) {w : Write} (hw : w.Fits) :
    (c.apply w).Every Record.Sound := by
  cases w with
  | upsert path provider outcome now =>
    obtain ⟨hsize, hnow⟩ := hw
    have hrecords := h.records path
    exact h.insert (Store.forall_replace (Store.sound_nextRecord hrecords hsize hnow) hrecords)
  | delete path => exact h.erase path

end Catalog

end Sound

namespace Backend

theorem load_of_read {d after : Disk} {files : Catalog} (hread : after.read = d.read)
    (h : load d = .ok files) : load after = .ok files := by
  unfold load at h ⊢
  rw [hread]
  cases hd : d.read with
  | error fault =>
    rw [hd] at h
    cases h
  | ok content =>
    rw [hd] at h
    cases content with
    | none => exact h
    | some content =>
      cases hc : Snapshot.read? content with
      | none => simp only [hc] at h; cases h
      | some c => simpa only [hc] using h

theorem load_of_write {d after : Disk} {files : Catalog} {content : Bytes}
    (hfiles : files.Every Record.Sound) (hcontent : Snapshot.write? files = some content)
    (hwrite : d.write content = (.ok (), after)) : load after = .ok files := by
  have hread : Snapshot.read? content = some files := by
    rw [Snapshot.read?_of_write? (fun e he r hr => (hfiles e he r hr).toFits) hcontent,
      Catalog.repair_of_every fun e he r hr => (hfiles e he r hr).consistent]
  rw [load, Disk.read_of_write_ok hwrite]
  simp only [hread]

/-- A backend whose file holds what its memory holds. -/
structure Durable (b : Backend) (d : Disk) : Prop where
  disk : b.disk = some d
  loads : load d = .ok b.files
  sound : b.files.Every Record.Sound

variable {b : Backend} {d : Disk} {files : Catalog}

theorem Durable.change (h : b.Durable d) (hfiles : files.Every Record.Sound) :
    ∃ after, (b.change files).2.Durable after := by
  have hchanged := b.changed files
  generalize b.change files = result at hchanged
  cases hchanged with
  | memory hdisk =>
    rw [h.disk] at hdisk
    cases hdisk
  | written hdisk hcontent hwrite => exact ⟨_, rfl, load_of_write hfiles hcontent hwrite, hfiles⟩
  | refused f hdisk hread =>
    rw [h.disk] at hdisk
    cases hdisk
    exact ⟨_, rfl, load_of_read hread h.loads, h.sound⟩

theorem change_isOk (h : b.disk = some d) (files : Catalog) :
    (b.change files).1.isOk = ((Snapshot.write? files).isSome && d.failingStep?.isNone) := by
  cases hcontent : Snapshot.write? files with
  | none =>
    simp only [Backend.change, persist, h, hcontent]
    rfl
  | some content =>
    rw [← d.write_isOk content]
    rcases hwrite : d.write content with ⟨answer, after⟩
    cases answer with
    | ok _ => simp only [Backend.change, persist, h, hcontent, hwrite]; rfl
    | error fault => simp only [Backend.change, persist, h, hcontent, hwrite]; rfl

end Backend

namespace Write

def changes (files : Catalog) : Write → Bool
  | .upsert .. => true
  | .delete path => (files.get? path).isSome

def success (files : Catalog) : Write → StoreAnswer
  | .upsert path provider outcome now =>
    .upserted (.ok (Store.nextRecord (files.records path) provider outcome now))
  | .delete path => .deleted (.ok (files.get? path).isSome)

variable {w : Write} {files : Catalog}

theorem apply_of_not_changes (h : w.changes files = false) : files.apply w = files := by
  cases w with
  | upsert path provider outcome now => cases h
  | delete path =>
    exact Dictionary.erase_of_get?_eq_none
      (Option.isNone_iff_eq_none.1 (Option.isSome_eq_false_iff.1 h))

theorem success_fails : (w.success files).fails = false := by
  cases w <;> rfl

theorem failure_fails (f : Failure) : (w.failure f).fails = true := by
  cases w <;> rfl

end Write

namespace Store

variable {s : Store} {w : Write}

theorem write_of_not_changes (h : w.changes s.backend.files = false) :
    s.write w = (w.success s.backend.files, s) := by
  cases w with
  | upsert path provider outcome now => cases h
  | delete path =>
    have hnone : s.backend.files.get? path = none :=
      Option.isNone_iff_eq_none.1 (Option.isSome_eq_false_iff.1 h)
    simp only [write, deleteFile, s.backend.delete_of_unknown hnone, Write.success, hnone]
    rfl

theorem write_of_changes (h : w.changes s.backend.files = true) :
    s.write w =
      match s.backend.change (s.backend.files.apply w) with
      | (.ok (), b) => (w.success s.backend.files, { s with backend := b })
      | (.error f, b) => (w.failure f, { s with backend := b }) := by
  cases w with
  | upsert path provider outcome now =>
    have hfiles : s.backend.files.insert path
        (replace (nextRecord (s.records path) provider outcome now) (s.records path)) =
          s.backend.files.apply (.upsert path provider outcome now) := rfl
    simp only [write, upsertAt, Backend.save_eq_change, hfiles]
    rcases s.backend.change (s.backend.files.apply (.upsert path provider outcome now)) with
      ⟨answer, b⟩
    cases answer <;> rfl
  | delete path =>
    obtain ⟨previous, hprevious⟩ := Option.isSome_iff_exists.1 h
    simp only [write, deleteFile, s.backend.delete_eq_change hprevious, Catalog.apply]
    rcases s.backend.change (s.backend.files.erase path) with ⟨answer, b⟩
    cases answer with
    | ok _ => simp only [Write.success, hprevious]; rfl
    | error f => rfl

def inMemory (s : Store) : Store := ⟨⟨s.backend.files, none⟩, s.policy⟩

theorem write_inMemory (s : Store) (w : Write) : s.inMemory.write w =
    (w.success s.backend.files, ⟨⟨s.backend.files.apply w, none⟩, s.policy⟩) := by
  cases h : w.changes s.backend.files with
  | false =>
    rw [Write.apply_of_not_changes h]
    exact write_of_not_changes (s := s.inMemory) h
  | true =>
    rw [write_of_changes (s := s.inMemory) h, Backend.change_of_memory _ rfl]
    rfl

variable {d : Disk}

inductive Written (s : Store) (d : Disk) (w : Write) : StoreAnswer × Store → Prop where
  | done {b : Backend} (hfiles : b.files = s.backend.files.apply w) :
      Written s d w (w.success s.backend.files, ⟨b, s.policy⟩)
  | failed {after : Disk} (f : Failure) (hread : after.read = d.read) :
      Written s d w (w.failure f, ⟨⟨s.backend.files, some after⟩, s.policy⟩)

theorem written (h : s.backend.disk = some d) (w : Write) : Written s d w (s.write w) := by
  cases hchanges : w.changes s.backend.files with
  | false =>
    rw [write_of_not_changes hchanges]
    exact .done (Write.apply_of_not_changes hchanges).symm
  | true =>
    rw [write_of_changes hchanges]
    have hchanged := s.backend.changed (s.backend.files.apply w)
    generalize s.backend.change (s.backend.files.apply w) = result at hchanged
    cases hchanged with
    | memory hdisk => exact .done rfl
    | written hdisk hcontent hwrite => exact .done rfl
    | refused f hdisk hread =>
      rw [h] at hdisk
      cases hdisk
      exact .failed f hread

theorem write_fails (h : s.backend.disk = some d) (w : Write) :
    (s.write w).1.fails = true ↔ w.changes s.backend.files = true ∧
      (Snapshot.write? (s.backend.files.apply w) = none ∨ d.failingStep?.isSome) := by
  cases hchanges : w.changes s.backend.files with
  | false =>
    rw [write_of_not_changes hchanges, Write.success_fails]
    simp
  | true =>
    have hok := Backend.change_isOk h (s.backend.files.apply w)
    rw [write_of_changes hchanges]
    rcases hchange : s.backend.change (s.backend.files.apply w) with ⟨answer, b⟩
    rw [hchange] at hok
    cases answer with
    | ok _ =>
      have hok : true = _ := hok
      rw [Eq.comm, Bool.and_eq_true, Option.isSome_iff_ne_none, Option.isNone_iff_eq_none] at hok
      simp [Write.success_fails, hok]
    | error f =>
      have hok : false = _ := hok
      rw [Eq.comm, Bool.and_eq_false_iff, Option.isSome_eq_false_iff, Option.isNone_iff_eq_none,
        Option.isNone_eq_false_iff] at hok
      simp [Write.failure_fails, hok]

theorem reopen_of_durable (h : s.backend.Durable d) : s.reopen = .ok s := by
  have hopened : Backend.opened d = .ok s.backend := by
    rw [Backend.opened, h.loads, ← h.disk]
    rfl
  rw [reopen, h.disk]
  change (Backend.opened d).bind _ = _
  rw [hopened]
  rfl

theorem durable_call (h : s.backend.Durable d) {c : StoreCall} (hc : c.Fits) :
    ∃ after, (s.call c).2.backend.Durable after := by
  cases c with
  | write w =>
    cases hchanges : w.changes s.backend.files with
    | false =>
      rw [call, write_of_not_changes hchanges]
      exact ⟨d, h⟩
    | true =>
      have hdurable := h.change (h.sound.apply hc)
      rw [call, write_of_changes hchanges]
      rcases hchange : s.backend.change (s.backend.files.apply w) with ⟨answer, b⟩
      rw [hchange] at hdurable
      cases answer <;> exact hdurable
  | reopen =>
    rw [call, reopen_of_durable h]
    exact ⟨d, h⟩
  | state | cachedFile | recordsWith | paths | isStale => exact ⟨d, h⟩

theorem call_inMemory (h : s.backend.Durable d) (c : StoreCall) :
    if isKept (c, (s.call c).1) then s.inMemory.call c = ((s.call c).1, (s.call c).2.inMemory)
    else (s.call c).2.inMemory = s.inMemory := by
  cases c with
  | write w =>
    have hmemory := s.write_inMemory w
    have hwritten := written h.disk w
    rw [call]
    generalize s.write w = result at hwritten
    cases hwritten with
    | done hfiles =>
      rw [← hfiles] at hmemory
      rw [isKept, Write.success_fails]
      exact hmemory
    | failed f hread =>
      rw [isKept, Write.failure_fails]
      rfl
  | reopen =>
    rw [call, reopen_of_durable h]
    rfl
  | state | cachedFile | recordsWith | paths | isStale => rfl

theorem durable_afterCalls (h : s.backend.Durable d) {calls : List StoreCall}
    (hcalls : ∀ c ∈ calls, c.Fits) : ∃ after, (s.afterCalls calls).backend.Durable after := by
  induction calls generalizing s d with
  | nil => exact ⟨d, h⟩
  | cons c calls ih =>
    obtain ⟨after, hafter⟩ := durable_call h (hcalls c List.mem_cons_self)
    exact ih hafter fun c hc => hcalls c (List.mem_cons_of_mem _ hc)

theorem trace_inMemory (h : s.backend.Durable d) {calls : List StoreCall}
    (hcalls : ∀ c ∈ calls, c.Fits) :
    s.inMemory.trace (((s.trace calls).filter isKept).map (·.1)) =
      (s.trace calls).filter isKept := by
  induction calls generalizing s d with
  | nil => rfl
  | cons c calls ih =>
    obtain ⟨after, hafter⟩ := durable_call h (hcalls c List.mem_cons_self)
    have hrest := ih hafter fun c hc => hcalls c (List.mem_cons_of_mem _ hc)
    have hcall := call_inMemory h c
    rw [trace, List.filter_cons]
    by_cases hkept : isKept (c, (s.call c).1) = true
    · rw [if_pos hkept] at hcall ⊢
      rw [List.map_cons, trace, hcall, hrest]
    · rw [if_neg hkept] at hcall ⊢
      rw [← hcall, hrest]

/-- What can be relied on between two calls of a store that is on a disk: the file is loaded as what
    the store holds, a write fails exactly when it cannot be written, and then changes nothing. -/
structure Reliable (s : Store) (d : Disk) : Prop where
  disk : s.backend.disk = some d
  loads : Backend.load d = .ok s.backend.files
  reopens : s.call .reopen = (.reopened (.ok ()), s)
  fails : ∀ w, (s.call (.write w)).1.fails = true ↔ w.changes s.backend.files = true ∧
    (Snapshot.write? (s.backend.files.apply w) = none ∨ d.failingStep?.isSome)
  unchanged : ∀ w, (s.call (.write w)).1.fails = true →
    (s.call (.write w)).2.backend.files = s.backend.files ∧
      ∃ after, (s.call (.write w)).2.backend.disk = some after ∧ after.read = d.read

theorem reliable_of_durable (h : s.backend.Durable d) : s.Reliable d := by
  refine ⟨h.disk, h.loads, ?_, write_fails h.disk, fun w hfails => ?_⟩
  · rw [call, reopen_of_durable h]
  · have hwritten := written h.disk w
    rw [call] at hfails ⊢
    generalize s.write w = result at hwritten hfails
    cases hwritten with
    | done hfiles =>
      rw [Write.success_fails] at hfails
      cases hfails
    | failed f hread => exact ⟨rfl, _, rfl, hread⟩

end Store

/-- A store on a file that is absent at first, with writes that may fail at any step and openings of
    the file at any time, runs as a store in memory does without the failures and the openings. -/
theorem store_on_disk_runs_as_in_memory (d : Disk) (policy : Staleness) (calls : List StoreCall)
    (habsent : d.read = .ok none) (hcalls : ∀ c ∈ calls, c.Fits) :
    ∃ b, Backend.opened d = .ok b ∧
      let s : Store := ⟨b, policy⟩
      let kept := (s.trace calls).filter isKept
      (Store.mk .memory policy).trace (kept.map (·.1)) = kept ∧
        ∃ after, (s.afterCalls calls).Reliable after := by
  have hload : Backend.load d = .ok .empty := by
    rw [Backend.load, habsent]
  have hopened : Backend.opened d = .ok ⟨.empty, some d⟩ := by
    rw [Backend.opened, hload]
    rfl
  have hdurable : (Store.mk ⟨.empty, some d⟩ policy).backend.Durable d := ⟨rfl, hload, nofun⟩
  obtain ⟨after, hafter⟩ := Store.durable_afterCalls hdurable hcalls
  exact ⟨_, hopened, Store.trace_inMemory hdurable hcalls, after, Store.reliable_of_durable hafter⟩

/-- A run in which a write fails before it reaches the disk, one at the sync and one at the rename,
    on a file that was opened anew. -/
theorem store_on_disk_runs_as_in_memory_of_faults :
    let file : CachedFile := ⟨"a.mkv", 7, none, "http://x/a", .premiumize, 0, .empty⟩
    let d : Disk := ⟨"state.json", .absent, .absent, [none, none, some .sync, none, some .rename]⟩
    let policy : Staleness := ⟨0, 0, 0, 0⟩
    let calls : List StoreCall :=
      [.write (.upsert "/a" .premiumize (.cached file) 9), .write (.delete "/a"), .reopen,
       .write (.upsert "/b" .easynews .missing (-1)), .write (.upsert "/b" .easynews .missing 5),
       .write (.upsert "/b" .easynews .missing 5), .write (.delete "/b"), .state "/b"]
    let s : Store := ⟨⟨.empty, some d⟩, policy⟩
    let kept := (s.trace calls).filter isKept
    d.read = .ok none ∧ (∀ c ∈ calls, c.Fits) ∧
      (s.trace calls).map (·.2.fails) = [false, false, false, true, true, false, true, false] ∧
      (Store.mk .memory policy).trace (kept.map (·.1)) = kept ∧
      ∃ after, (s.afterCalls calls).Reliable after := by
  intro file d policy calls s kept
  have hfits : ∀ c ∈ calls, c.Fits := by
    have hfile : ∀ f ∈ FileOutcome.file? (.cached file), f.size ≤ Text.maxU64 := by
      rintro f ⟨⟩
      decide
    have hnone : ∀ f ∈ FileOutcome.file? .missing, f.size ≤ Text.maxU64 := nofun
    have hmoment : Time.Fits 9 ∧ Time.Fits (-1) ∧ Time.Fits 5 := by
      unfold Time.Fits
      decide
    simp only [calls, List.forall_mem_cons]
    exact ⟨⟨hfile, hmoment.1⟩, trivial, trivial, ⟨hnone, hmoment.2.1⟩, ⟨hnone, hmoment.2.2⟩,
      ⟨hnone, hmoment.2.2⟩, trivial, trivial, fun c hc => absurd hc List.not_mem_nil⟩
  obtain ⟨b, hopened, htrace, hreliable⟩ := store_on_disk_runs_as_in_memory d policy calls rfl hfits
  cases hopened
  have hfails : (s.trace calls).map (·.2.fails) =
      [false, false, false, true, true, false, true, false] := by decide +kernel
  exact ⟨rfl, hfits, hfails, htrace, hreliable⟩

end LinkRelay
