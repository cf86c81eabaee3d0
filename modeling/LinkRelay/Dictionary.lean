set_option autoImplicit false

/-!
# Dictionaries

Finite maps from text, kept in the order of their keys, so that equal maps are equal values and
every listing of a map is sorted.
-/

namespace LinkRelay

structure Dictionary (β : Type) where
  entries : List (String × β)
  sorted : entries.Pairwise fun a b => a.1 < b.1

namespace Dictionary

variable {β : Type}

def empty : Dictionary β := ⟨[], .nil⟩

instance : EmptyCollection (Dictionary β) := ⟨empty⟩

instance : Inhabited (Dictionary β) := ⟨empty⟩

def keys (d : Dictionary β) : List String := d.entries.map (·.1)

def size (d : Dictionary β) : Nat := d.entries.length

def get? (d : Dictionary β) (k : String) : Option β := d.entries.lookup k

def place (k : String) (v : β) : List (String × β) → List (String × β)
  | [] => [(k, v)]
  | e :: rest =>
    if k < e.1 then (k, v) :: e :: rest
    else if k = e.1 then (k, v) :: rest
    else e :: place k v rest

theorem mem_place {k : String} {v : β} {entries : List (String × β)} {e : String × β}
    (h : e ∈ place k v entries) : e = (k, v) ∨ e ∈ entries := by
  induction entries with
  | nil => simp_all [place]
  | cons first rest ih =>
    unfold place at h
    split at h
    · simp_all
    · split at h
      · rcases List.mem_cons.1 h with h | h
        · exact .inl h
        · exact .inr (List.mem_cons_of_mem _ h)
      · rcases List.mem_cons.1 h with h | h
        · exact .inr (h ▸ List.mem_cons_self)
        · exact (ih h).imp id (List.mem_cons_of_mem _)

theorem sorted_place (k : String) (v : β) {entries : List (String × β)}
    (h : entries.Pairwise fun a b => a.1 < b.1) :
    (place k v entries).Pairwise fun a b => a.1 < b.1 := by
  induction entries with
  | nil => simp [place]
  | cons first rest ih =>
    have ⟨hfirst, hrest⟩ := List.pairwise_cons.1 h
    unfold place
    split
    next hlt =>
      refine List.pairwise_cons.2 ⟨fun e he => ?_, h⟩
      rcases List.mem_cons.1 he with rfl | he
      · exact hlt
      · exact String.lt_trans hlt (hfirst e he)
    next hlt =>
      split
      next heq => exact List.pairwise_cons.2 ⟨fun e he => heq ▸ hfirst e he, hrest⟩
      next hne =>
        have hgt : first.1 < k := by
          rcases Decidable.em (first.1 < k) with h | h
          · exact h
          · exact absurd (String.le_antisymm (String.not_lt.1 h) (String.not_lt.1 hlt)) hne
        refine List.pairwise_cons.2 ⟨fun e he => ?_, ih hrest⟩
        rcases mem_place he with rfl | he
        · exact hgt
        · exact hfirst e he

def insert (d : Dictionary β) (k : String) (v : β) : Dictionary β :=
  ⟨place k v d.entries, sorted_place k v d.sorted⟩

def erase (d : Dictionary β) (k : String) : Dictionary β :=
  ⟨d.entries.filter fun e => e.1 != k, d.sorted.filter _⟩

def ofList (entries : List (String × β)) : Dictionary β :=
  entries.foldl (fun d e => d.insert e.1 e.2) empty

def map {γ : Type} (f : String → β → γ) (d : Dictionary β) : Dictionary γ :=
  ⟨d.entries.map fun e => (e.1, f e.1 e.2), d.sorted.map _ fun _ _ h => h⟩

theorem lookup_cons (k : String) (e : String × β) (rest : List (String × β)) :
    (e :: rest).lookup k = if k = e.1 then some e.2 else rest.lookup k := by
  obtain ⟨k', v⟩ := e
  rw [List.lookup_cons]
  by_cases h : k = k'
  · rw [if_pos h, h, beq_self_eq_true]
  · rw [if_neg h, beq_eq_false_iff_ne.mpr h]

theorem lookup_place (k k' : String) (v : β) (entries : List (String × β)) :
    (place k v entries).lookup k' = if k' = k then some v else entries.lookup k' := by
  induction entries with
  | nil => simp only [place, lookup_cons, List.lookup_nil]
  | cons first rest ih =>
    unfold place
    split
    · simp only [lookup_cons]
    · split
      next heq => subst heq; simp only [lookup_cons]; split <;> rfl
      next hne =>
        simp only [lookup_cons, ih]
        by_cases h : k' = first.1
        · simp [h, Ne.symm hne]
        · simp [h]

theorem lookup_filter (k k' : String) (entries : List (String × β)) :
    (entries.filter fun e => e.1 != k).lookup k' =
      if k' = k then none else entries.lookup k' := by
  induction entries with
  | nil => simp
  | cons first rest ih =>
    by_cases hk : first.1 = k
    · simp only [List.filter_cons, hk, bne_self_eq_false, Bool.false_eq_true, if_false, ih,
        lookup_cons]
      split <;> rfl
    · have hb : (first.1 != k) = true := by simpa using hk
      simp only [List.filter_cons, hb, if_true, lookup_cons, ih]
      by_cases h : k' = first.1
      · simp [h, hk]
      · simp [h]

theorem get?_insert (d : Dictionary β) (k k' : String) (v : β) :
    (d.insert k v).get? k' = if k' = k then some v else d.get? k' :=
  lookup_place k k' v d.entries

theorem get?_erase (d : Dictionary β) (k k' : String) :
    (d.erase k).get? k' = if k' = k then none else d.get? k' :=
  lookup_filter k k' d.entries

end Dictionary
end LinkRelay
