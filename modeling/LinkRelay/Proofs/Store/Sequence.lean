import LinkRelay.Proofs.Store.Durability
import LinkRelay.Store.Writers
set_option autoImplicit false

/-!
# One write after another

What a store comes to when writes are made one at a time, some of which may fail: no path gets two
records of one provider, and a record stays until a write overrides it. A write is a change in
memory that is then settled.
-/

namespace LinkRelay

/-- Whether a write may take away or replace a provider's record on a path. -/
def Write.Overrides (path : String) (provider : Provider) : Write → Prop
  | .upsert p q _ _ => p = path ∧ q = provider
  | .delete p => p = path

namespace Catalog

def OnePerProvider (c : Catalog) : Prop := ∀ path, ((c.records path).map (·.provider)).Nodup

variable {c : Catalog}

theorem OnePerProvider.apply (h : c.OnePerProvider) (w : Write) : (c.apply w).OnePerProvider := by
  intro path
  cases w with
  | upsert p provider outcome now =>
    rw [Catalog.apply, records_insert]
    split
    · rw [replace_providers]
      split
      · exact h p
      · refine List.nodup_append.2 ⟨h p, List.nodup_singleton _, fun q hq q' hq' he => ?_⟩
        rename_i hnew
        rw [List.mem_singleton.1 hq'] at he
        exact hnew (he ▸ hq)
    · exact h path
  | delete p =>
    rw [Catalog.apply, records_erase]
    split
    · exact List.nodup_nil
    · exact h path

theorem mem_records_apply {w : Write} {path : String} {r : Record} (hr : r ∈ c.records path)
    (hw : ¬ w.Overrides path r.provider) : r ∈ (c.apply w).records path := by
  cases w with
  | upsert p provider outcome now =>
    rw [apply, records_insert]
    split
    next hpath =>
      subst hpath
      refine Store.mem_replace_of_ne hr fun he => hw ⟨rfl, ?_⟩
      exact (he.trans (nextRecord_provider ..)).symm
    next => exact hr
  | delete p =>
    rw [apply, records_erase, if_neg (Ne.symm hw)]
    exact hr

end Catalog

namespace Store

def afterWrites (s : Store) (ws : List Write) : Store := ws.foldl (fun s w => (s.write w).2) s

theorem afterWrites_append (s : Store) (ws : List Write) (w : Write) :
    s.afterWrites (ws ++ [w]) = ((s.afterWrites ws).write w).2 := List.foldl_append

variable {s : Store}

theorem write_upsert (path : String) (provider : Provider) (outcome : FileOutcome) (now : Time) :
    s.write (.upsert path provider outcome now) =
      let record := nextRecord (s.records path) provider outcome now
      let files := s.backend.files.insert path (replace record (s.records path))
      (s.withFiles files).settle (.upsert path provider outcome now) (s.backend.files.get? path)
        (.upserted (.ok record)) := by
  simp only [write, upsertAt, settle, Backend.save, withFiles, Write.path]
  rcases Backend.settle _ _ _ with ⟨answer, backend⟩
  cases answer <;> rfl

theorem write_delete_of_unknown {path : String} (h : s.backend.files.get? path = none) :
    s.write (.delete path) = (.deleted (.ok false), s) := by
  simp only [write, deleteFile, s.backend.delete_of_unknown h]

theorem write_delete {path : String} {previous : List Record}
    (h : s.backend.files.get? path = some previous) :
    s.write (.delete path) = (s.withFiles (s.backend.files.erase path)).settle (.delete path)
      (some previous) (.deleted (.ok true)) := by
  simp only [write, deleteFile, settle, Backend.delete, h, withFiles, Write.path]
  rcases Backend.settle _ _ _ with ⟨answer, backend⟩
  cases answer <;> rfl

theorem write_files (s : Store) (w : Write) :
    (s.write w).2.backend.files = s.backend.files.apply w ∨
      (s.write w).2.backend.files = s.backend.files := by
  cases hchanges : w.changes s.backend.files with
  | false =>
    rw [write_of_not_changes hchanges]
    exact .inr rfl
  | true =>
    rw [write_of_changes hchanges]
    have hchanged := s.backend.changed (s.backend.files.apply w)
    generalize s.backend.change (s.backend.files.apply w) = result at hchanged
    cases hchanged with
    | memory => exact .inl rfl
    | written => exact .inl rfl
    | refused => exact .inr rfl

theorem onePerProvider_afterWrites (h : s.backend.files.OnePerProvider) (ws : List Write) :
    (s.afterWrites ws).backend.files.OnePerProvider := by
  induction ws generalizing s with
  | nil => exact h
  | cons w ws ih =>
    refine ih (s := (s.write w).2) ?_
    rcases s.write_files w with hfiles | hfiles
    · rw [hfiles]
      exact h.apply w
    · rw [hfiles]
      exact h

theorem mem_records_afterWrites {path : String} {r : Record} {ws : List Write}
    (hr : r ∈ s.records path) (hws : ∀ w ∈ ws, ¬ w.Overrides path r.provider) :
    r ∈ (s.afterWrites ws).records path := by
  induction ws generalizing s with
  | nil => exact hr
  | cons w ws ih =>
    refine ih (s := (s.write w).2) ?_ fun w' hw' => hws w' (List.mem_cons_of_mem _ hw')
    change r ∈ (s.write w).2.backend.files.records path
    rcases s.write_files w with hfiles | hfiles
    · rw [hfiles]
      exact Catalog.mem_records_apply hr (hws w List.mem_cons_self)
    · rw [hfiles]
      exact hr

theorem mem_records_of_upserted {path : String} {provider : Provider} {outcome : FileOutcome}
    {now : Time} {record : Record}
    (h : (s.write (.upsert path provider outcome now)).1 = .upserted (.ok record)) :
    record.provider = provider ∧
      record ∈ (s.write (.upsert path provider outcome now)).2.records path := by
  rw [write_of_changes (w := .upsert path provider outcome now) rfl] at h ⊢
  rcases hchange : s.backend.change (s.backend.files.apply (.upsert path provider outcome now)) with
    ⟨answer, b⟩
  rw [hchange] at h
  cases answer with
  | error f => cases h
  | ok _ =>
    cases h
    refine ⟨nextRecord_provider .., ?_⟩
    change _ ∈ b.files.records path
    rw [Backend.change_ok hchange, Catalog.apply, Catalog.records_insert, if_pos rfl]
    exact mem_replace_self ..

end Store

def Call.write? : Call → Option Write
  | .write w => some w
  | .look _ => none

def writesAt (calls : List Call) (turns : List Nat) : List Write :=
  turns.filterMap fun i => calls[i]?.bind Call.write?

theorem writesAt_append {calls : List Call} {turns : List Nat} {i : Nat} {w : Write}
    (h : calls[i]? = some (.write w)) :
    writesAt calls (turns ++ [i]) = writesAt calls turns ++ [w] := by
  rw [writesAt, List.filterMap_append]
  simp only [List.filterMap_cons, h]
  rfl

theorem mem_writesAt {calls : List Call} {turns : List Nat} {w : Write} :
    w ∈ writesAt calls turns ↔ ∃ i ∈ turns, calls[i]? = some (.write w) := by
  refine List.mem_filterMap.trans (exists_congr fun i => and_congr_right fun _ => ?_)
  constructor
  · intro h
    obtain ⟨c, hc, hwrite⟩ := Option.bind_eq_some_iff.1 h
    cases c with
    | look q => cases hwrite
    | write w' =>
      cases hwrite
      exact hc
  · intro h
    rw [h]
    rfl

end LinkRelay
