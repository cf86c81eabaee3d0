import LinkRelay.Breaker
import LinkRelay.Proofs.Dictionary
set_option autoImplicit false

/-!
# Open circuits

A circuit is open or not at a moment, whether the breaker still remembers it or has forgotten that
its time is over. Two breakers are alike from a moment on if no later question tells them apart;
a check leaves a breaker that is alike from its own moment on.
-/

namespace LinkRelay.Breaker

variable {b c : Breaker} {name : String} {now t : Nat}

theorem isOpenAt_eq (b : Breaker) (name : String) (now : Nat) :
    b.isOpenAt name now = (b.openUntil.get? name).any fun ends => now < ends := by
  unfold isOpenAt
  cases b.openUntil.get? name <;> rfl

theorem isOpenAt_iff (b : Breaker) (name : String) (now : Nat) :
    b.isOpenAt name now = true ↔ ∃ ends, b.openUntil.get? name = some ends ∧ now < ends := by
  rw [isOpenAt_eq, Option.any_eq_true]
  simp only [decide_eq_true_eq]

theorem isOpenAt_trip (b : Breaker) (name other : String) (duration now t : Nat) :
    (b.trip name duration now).isOpenAt other t =
      if other = name then decide (t < now + duration) else b.isOpenAt other t := by
  have hget : (b.trip name duration now).openUntil.get? other =
      if other = name then some (now + duration) else b.openUntil.get? other :=
    Dictionary.get?_insert ..
  rw [isOpenAt_eq, isOpenAt_eq, hget]
  by_cases hname : other = name
  · rw [if_pos hname, if_pos hname, Option.any_some]
  · rw [if_neg hname, if_neg hname]

theorem not_isOpenAt_of_le (h : b.isOpenAt name now = false) (hle : now ≤ t) :
    b.isOpenAt name t = false := by
  rw [Bool.eq_false_iff] at h ⊢
  intro hopen
  obtain ⟨ends, hget, hlt⟩ := (b.isOpenAt_iff name t).1 hopen
  exact h ((b.isOpenAt_iff name now).2 ⟨ends, hget, hle.trans_lt hlt⟩)

theorem check_fst (b : Breaker) (name : String) (now : Nat) :
    (b.check name now).1 = b.isOpenAt name now := by
  unfold check
  cases b.isOpenAt name now <;> rfl

theorem isOpenAt_check (b : Breaker) (name other : String) (hle : now ≤ t) :
    (b.check name now).2.isOpenAt other t = b.isOpenAt other t := by
  unfold check
  split
  next => rfl
  next hclosed =>
    rw [Bool.not_eq_true] at hclosed
    rw [isOpenAt_eq, isOpenAt_eq]
    dsimp only
    rw [Dictionary.get?_erase]
    split
    next hname => rw [hname, ← isOpenAt_eq, not_isOpenAt_of_le hclosed hle, Option.any_none]
    next => rfl

theorem mem_openNames (b : Breaker) (name : String) (now : Nat) :
    name ∈ b.openNames now ↔ b.isOpenAt name now = true := by
  rw [isOpenAt_iff, openNames, List.mem_map]
  constructor
  · rintro ⟨⟨key, ends⟩, hmem, rfl⟩
    obtain ⟨hentry, hlt⟩ := List.mem_filter.1 hmem
    exact ⟨ends, b.openUntil.get?_of_mem hentry, of_decide_eq_true hlt⟩
  · rintro ⟨ends, hget, hlt⟩
    have hentry := (b.openUntil.mem_entries name ends).2 hget
    exact ⟨(name, ends), List.mem_filter.2 ⟨hentry, decide_eq_true hlt⟩, rfl⟩

theorem sorted_openNames (b : Breaker) (now : Nat) : (b.openNames now).Pairwise (· < ·) :=
  (b.openUntil.sorted.filter _).map _ fun _ _ h => h

theorem nodup_openNames (b : Breaker) (now : Nat) : (b.openNames now).Nodup := by
  apply (b.sorted_openNames now).imp
  rintro name other hlt rfl
  exact String.lt_irrefl name hlt

/-- From a moment on the same circuits are open. -/
def AlikeFrom (now : Nat) (b c : Breaker) : Prop :=
  ∀ name t, now ≤ t → b.isOpenAt name t = c.isOpenAt name t

namespace AlikeFrom

theorem rfl : AlikeFrom now b b := fun _ _ _ => Eq.refl _

theorem mono {later : Nat} (h : AlikeFrom now b c) (hle : now ≤ later) : AlikeFrom later b c :=
  fun name t ht => h name t (hle.trans ht)

theorem checked (b : Breaker) (name : String) (now : Nat) :
    AlikeFrom now (b.check name now).2 b :=
  fun other _ ht => b.isOpenAt_check name other ht

theorem trip (h : AlikeFrom now b c) (name : String) (duration moment : Nat) :
    AlikeFrom now (b.trip name duration moment) (c.trip name duration moment) := by
  intro other t ht
  rw [isOpenAt_trip, isOpenAt_trip, h other t ht]

theorem check (h : AlikeFrom now b c) (name : String) {moment : Nat} (hle : now ≤ moment) :
    (b.check name moment).1 = (c.check name moment).1 ∧
      AlikeFrom now (b.check name moment).2 (c.check name moment).2 := by
  refine ⟨by rw [check_fst, check_fst, h name moment hle], ?_⟩
  unfold Breaker.check
  rw [h name moment hle]
  split
  next => exact h
  next =>
    intro other t ht
    have hsame := h other t ht
    rw [isOpenAt_eq, isOpenAt_eq] at hsame ⊢
    dsimp only
    rw [Dictionary.get?_erase, Dictionary.get?_erase]
    split
    next => exact Eq.refl _
    next => exact hsame

theorem openNames (h : AlikeFrom now b c) {moment : Nat} (hle : now ≤ moment) :
    b.openNames moment = c.openNames moment := by
  have hirrefl : Std.Irrefl fun a b : String => a < b := ⟨String.lt_irrefl⟩
  have hantisymm : Std.Antisymm fun a b : String => a < b :=
    ⟨fun a b hab hba => absurd (String.lt_trans hab hba) (String.lt_irrefl a)⟩
  refine (b.sorted_openNames moment).eq_of_mem_iff (c.sorted_openNames moment) fun name => ?_
  rw [mem_openNames, mem_openNames, h name moment hle]

end AlikeFrom

end LinkRelay.Breaker
