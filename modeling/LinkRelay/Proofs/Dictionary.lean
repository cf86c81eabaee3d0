import Mathlib.Data.List.Sort
import LinkRelay.Dictionary
set_option autoImplicit false

/-!
# What a dictionary holds

Keys, entries and answers of a dictionary agree, and its entries in their order make it again.
-/

namespace LinkRelay.Dictionary

variable {β : Type}

theorem lookup_isSome (k : String) (entries : List (String × β)) :
    (entries.lookup k).isSome ↔ k ∈ entries.map (·.1) := by
  induction entries with
  | nil => simp
  | cons e rest ih =>
    rw [lookup_cons, List.map_cons, List.mem_cons, ← ih]
    by_cases h : k = e.1 <;> simp [h]

theorem mem_keys (d : Dictionary β) (k : String) : k ∈ d.keys ↔ (d.get? k).isSome :=
  (lookup_isSome k d.entries).symm

theorem sorted_keys (d : Dictionary β) : d.keys.Pairwise (· < ·) := d.sorted.map _ fun _ _ h => h

theorem lookup_of_mem {k : String} {v : β} {entries : List (String × β)}
    (hs : entries.Pairwise fun a b => a.1 < b.1) (h : (k, v) ∈ entries) :
    entries.lookup k = some v := by
  induction entries with
  | nil => simp at h
  | cons e rest ih =>
    obtain ⟨hfirst, hrest⟩ := List.pairwise_cons.1 hs
    rw [lookup_cons]
    rcases List.mem_cons.1 h with rfl | h
    · rw [if_pos rfl]
    · have hne : k ≠ e.1 := fun he => String.lt_irrefl _ (he ▸ hfirst _ h)
      rw [if_neg hne]
      exact ih hrest h

theorem get?_of_mem (d : Dictionary β) {k : String} {v : β} (h : (k, v) ∈ d.entries) :
    d.get? k = some v :=
  lookup_of_mem d.sorted h

theorem eq_of_entries {d e : Dictionary β} (h : d.entries = e.entries) : d = e := by
  cases d
  cases e
  cases h
  rfl

theorem mem_entries (d : Dictionary β) (k : String) (v : β) :
    (k, v) ∈ d.entries ↔ d.get? k = some v := by
  refine ⟨d.get?_of_mem, fun h => ?_⟩
  obtain ⟨before, after, hentries, -⟩ := List.lookup_eq_some_iff.1 h
  rw [hentries]
  exact List.mem_append_right _ List.mem_cons_self

theorem ext_get? {d e : Dictionary β} (h : ∀ k, d.get? k = e.get? k) : d = e := by
  have hirrefl : Std.Irrefl fun a b : String × β => a.1 < b.1 := ⟨fun a => String.lt_irrefl a.1⟩
  have hantisymm : Std.Antisymm fun a b : String × β => a.1 < b.1 :=
    ⟨fun a b hab hba => absurd (String.lt_trans hab hba) (String.lt_irrefl a.1)⟩
  apply eq_of_entries
  refine d.sorted.eq_of_mem_iff e.sorted ?_
  rintro ⟨k, v⟩
  rw [mem_entries, mem_entries, h]

theorem get?_map {γ : Type} (f : β → γ) (d : Dictionary β) (k : String) :
    (d.map fun _ v => f v).get? k = (d.get? k).map f := by
  change (d.entries.map _).lookup k = (d.entries.lookup k).map f
  induction d.entries with
  | nil => rfl
  | cons e rest ih =>
    rw [List.map_cons, lookup_cons, lookup_cons, ih]
    split <;> rfl

section Undo

variable {d : Dictionary β} {k : String} {v : β}

theorem insert_insert_old (h : d.get? k = some v) (w : β) : (d.insert k w).insert k v = d := by
  apply ext_get?
  intro k'
  rw [get?_insert, get?_insert]
  by_cases hk : k' = k
  · rw [if_pos hk, hk, h]
  · rw [if_neg hk, if_neg hk]

theorem erase_insert_new (h : d.get? k = none) (w : β) : (d.insert k w).erase k = d := by
  apply ext_get?
  intro k'
  rw [get?_erase, get?_insert]
  by_cases hk : k' = k
  · rw [if_pos hk, hk, h]
  · rw [if_neg hk, if_neg hk]

theorem insert_erase_old (h : d.get? k = some v) : (d.erase k).insert k v = d := by
  apply ext_get?
  intro k'
  rw [get?_insert, get?_erase]
  by_cases hk : k' = k
  · rw [if_pos hk, hk, h]
  · rw [if_neg hk, if_neg hk]

end Undo

theorem erase_of_get?_eq_none {d : Dictionary β} {k : String} (h : d.get? k = none) :
    d.erase k = d := by
  apply ext_get?
  intro k'
  rw [get?_erase]
  by_cases hk : k' = k
  · rw [if_pos hk, hk, h]
  · rw [if_neg hk]

theorem place_eq_append {k : String} {v : β} {entries : List (String × β)}
    (h : ∀ e ∈ entries, e.1 < k) : place k v entries = entries ++ [(k, v)] := by
  induction entries with
  | nil => rfl
  | cons e rest ih =>
    have he : e.1 < k := h e List.mem_cons_self
    have hnot : ¬ k < e.1 := fun hk => String.lt_irrefl _ (String.lt_trans hk he)
    have hne : k ≠ e.1 := fun hk => String.lt_irrefl _ (hk ▸ he)
    rw [place, if_neg hnot, if_neg hne, ih fun e he => h e (List.mem_cons_of_mem _ he)]
    rfl

theorem foldl_insert_entries (d : Dictionary β) (rest : List (String × β))
    (h : (d.entries ++ rest).Pairwise fun a b => a.1 < b.1) :
    (rest.foldl (fun d e => d.insert e.1 e.2) d).entries = d.entries ++ rest := by
  induction rest generalizing d with
  | nil => simp
  | cons e rest ih =>
    have hplace : (d.insert e.1 e.2).entries = d.entries ++ [e] :=
      place_eq_append fun f hf => (List.pairwise_append.1 h).2.2 f hf e List.mem_cons_self
    have hnext := ih (d.insert e.1 e.2) (by rw [hplace, List.append_assoc]; exact h)
    rw [List.foldl_cons, hnext, hplace, List.append_assoc]
    rfl

theorem ofList_entries (d : Dictionary β) : ofList d.entries = d :=
  eq_of_entries (foldl_insert_entries empty d.entries d.sorted)

section Merge

variable {k : String} {v : β} {rest before after : List (String × β)}

theorem get?_foldl_insert_of_notMem (d : Dictionary β) (h : k ∉ rest.map (·.1)) :
    (rest.foldl (fun d e => d.insert e.1 e.2) d).get? k = d.get? k := by
  induction rest generalizing d with
  | nil => rfl
  | cons e rest ih =>
    rw [List.map_cons, List.mem_cons, not_or] at h
    obtain ⟨hne, hrest⟩ := h
    rw [List.foldl_cons, ih _ hrest, get?_insert, if_neg hne]

theorem get?_ofList_of_last (h : k ∉ after.map (·.1)) :
    (ofList (before ++ (k, v) :: after)).get? k = some v := by
  rw [ofList, List.foldl_append, List.foldl_cons, get?_foldl_insert_of_notMem _ h, get?_insert,
    if_pos rfl]

theorem mem_keys_foldl_insert (d : Dictionary β) :
    k ∈ (rest.foldl (fun d e => d.insert e.1 e.2) d).keys ↔ k ∈ d.keys ∨ k ∈ rest.map (·.1) := by
  induction rest generalizing d with
  | nil => simp
  | cons e rest ih =>
    have hinsert : k ∈ (d.insert e.1 e.2).keys ↔ k = e.1 ∨ k ∈ d.keys := by
      rw [mem_keys, mem_keys, get?_insert]
      by_cases h : k = e.1 <;> simp [h]
    rw [List.foldl_cons, ih, hinsert, List.map_cons, List.mem_cons]
    tauto

theorem mem_keys_ofList : k ∈ (ofList rest).keys ↔ k ∈ rest.map (·.1) := by
  rw [ofList, mem_keys_foldl_insert]
  exact or_iff_right List.not_mem_nil

end Merge

theorem insert_comm (d : Dictionary β) {e f : String × β} (h : e.1 = f.1 → e = f) :
    (d.insert e.1 e.2).insert f.1 f.2 = (d.insert f.1 f.2).insert e.1 e.2 := by
  by_cases hkey : e.1 = f.1
  · rw [h hkey]
  · apply ext_get?
    intro k
    simp only [get?_insert]
    by_cases hk : k = e.1
    · rw [if_pos hk, if_pos hk, if_neg (hk ▸ hkey)]
    · rw [if_neg hk, if_neg hk]

theorem ofList_of_perm {d : Dictionary β} {entries : List (String × β)}
    (h : entries.Perm d.entries) : ofList entries = d := by
  have hunique : ∀ e ∈ entries, ∀ f ∈ entries, e.1 = f.1 → e = f := by
    intro e he f hf hkey
    have hvalue := d.get?_of_mem (h.mem_iff.1 he)
    rw [hkey, d.get?_of_mem (h.mem_iff.1 hf)] at hvalue
    exact Prod.ext hkey (Option.some_inj.1 hvalue).symm
  calc
    ofList entries = ofList d.entries :=
      h.foldl_eq' (fun e he f hf z => z.insert_comm (hunique e he f hf)) empty
    _ = d := ofList_entries d

end LinkRelay.Dictionary
