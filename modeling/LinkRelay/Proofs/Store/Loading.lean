import LinkRelay.Proofs.Store.Durability
import LinkRelay.Proofs.Store.Reopening
set_option autoImplicit false

/-!
# Opening a file that anybody wrote

A state file may be edited by hand. Whatever text opens, its paths are the store's, with the records
that it lists last for each, put right one by one.
-/

namespace LinkRelay

/-- A record that claims a file without the means to serve it. -/
def Record.Unservable (r : Record) : Prop := r.state = .cached ∧ (r.link = none ∨ r.size = none)

namespace Record

variable {r r' : Record}

theorem Reopened.eq_of_unservable (h : r.Reopened r') (hr : r.Unservable) :
    r' = { r with state := .failed .provider, link := none, lastChecked := 0 } := by
  rw [Reopened] at h
  exact (if_pos hr).mp h

theorem Reopened.ne_iff (h : r.Reopened r') : r' ≠ r ↔ r.Unservable := by
  constructor
  · intro hne
    by_contra hr
    rw [Reopened] at h
    exact hne ((if_neg hr).mp h)
  · intro hr heq
    have hstate : r'.state = .failed .provider := by rw [h.eq_of_unservable hr]
    rw [heq, hr.1] at hstate
    cases hstate

theorem toFile?_isSome_of_isConsistent (h : r.isConsistent = true) :
    r.toFile?.isSome = true ↔ r.state = .cached := by
  obtain ⟨provider, state, lastChecked, link, size, mimeType, remotePath, params⟩ := r
  cases state with
  | cached =>
    cases link with
    | none => cases h
    | some link =>
      cases size with
      | none => cases h
      | some size => simp [toFile?]
  | missing | failed => simp [toFile?]

end Record

namespace Catalog

theorem isConsistent_of_mem_repair {c : Catalog} {path : String} {r : Record}
    (h : r ∈ c.repair.records path) : r.isConsistent = true := by
  have hall : c.Every fun _ => True := fun _ _ _ _ => trivial
  have hrepaired : c.repair.Every fun r => r.isConsistent = true :=
    hall.repair fun r _ => r.isConsistent_demote
  exact hrepaired.records path r h

theorem every_of_single {p : Record → Prop} {c : Catalog} {path : String} {r : Record}
    (hc : c.entries = [(path, [r])]) (h : p r) : c.Every p := by
  intro e he r' hr
  rw [hc, List.mem_singleton] at he
  rw [he, List.mem_singleton] at hr
  rwa [hr]

theorem records_ofList_of_last {path : String} {records : List Record}
    {before after : List (String × List Record)} (h : path ∉ after.map (·.1)) :
    Catalog.records (.ofList (before ++ (path, records) :: after)) path = records := by
  rw [Catalog.records, Dictionary.get?_ofList_of_last h, Option.getD_some]

end Catalog

theorem Backend.opened_eq_ok_iff {d : Disk} {content : Bytes} {b : Backend}
    (hread : d.read = .ok (some content)) : Backend.opened d = .ok b ↔
      ∃ listed, Snapshot.Lists content listed ∧ b = ⟨Catalog.repair (.ofList listed), some d⟩ := by
  constructor
  · intro h
    cases hcatalog : Snapshot.read? content with
    | none =>
      rw [Backend.opened, Backend.load, hread] at h
      simp only [hcatalog] at h
      cases h
    | some c =>
      cases (Backend.opened_of_read? hread hcatalog).symm.trans h
      obtain ⟨listed, hlists, rfl⟩ := Snapshot.read?_eq_some_iff.1 hcatalog
      exact ⟨listed, hlists, rfl⟩
  · rintro ⟨listed, hlists, rfl⟩
    exact Backend.opened_of_read? hread (Snapshot.read?_eq_some_iff.2 ⟨listed, hlists, rfl⟩)

theorem Backend.opened_of_written {c : Catalog} (hfits : c.Every Record.Fits) (htimely : c.Timely)
    {d : Disk} (hread : d.read = .ok (some ((Snapshot.write? c).getD []))) :
    Backend.opened d = .ok ⟨c.repair, some d⟩ := by
  obtain ⟨content, hcontent⟩ := Option.isSome_iff_exists.1 (Snapshot.write?_isSome htimely)
  rw [hcontent, Option.getD_some] at hread
  exact Backend.opened_of_read? hread (Snapshot.read?_of_write? hfits hcontent)

end LinkRelay
