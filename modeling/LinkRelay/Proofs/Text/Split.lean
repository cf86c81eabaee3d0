import LinkRelay.Text.Blank
import LinkRelay.Text.Split
import Mathlib.Data.List.TakeWhile
set_option autoImplicit false

/-!
# The pieces of a text

What a text is that was split, cut at its front, or trimmed.
-/

namespace LinkRelay.Text

theorem eq_append_of_after? {lead s rest : List Char} (h : after? lead s = some rest) :
    s = lead ++ rest := by
  induction lead generalizing s with
  | nil => exact Option.some.inj h
  | cons l lead ih =>
    cases s with
    | nil => cases h
    | cons c s =>
      rw [after?] at h
      split at h
      next hc => rw [ih h, hc, List.cons_append]
      next => cases h

theorem after?_eq_some_iff {lead s rest : List Char} :
    after? lead s = some rest ↔ s = lead ++ rest :=
  ⟨eq_append_of_after?, fun h => h ▸ after?_append lead rest⟩

theorem splitFirst_of_notMem {sep : Char} {before : List Char} (after : List Char)
    (h : sep ∉ before) : splitFirst sep (before ++ sep :: after) = some (before, after) := by
  induction before with
  | nil => simp [splitFirst]
  | cons c before ih =>
    have hne : c ≠ sep := fun hc => h (hc ▸ List.mem_cons_self)
    simp [splitFirst, hne, ih fun hmem => h (List.mem_cons_of_mem _ hmem)]

theorem splitFirst_eq_some_iff {sep : Char} {s before after : List Char} :
    splitFirst sep s = some (before, after) ↔ s = before ++ sep :: after ∧ sep ∉ before := by
  constructor
  · intro h
    induction s generalizing before with
    | nil => cases h
    | cons c rest ih =>
      rw [splitFirst] at h
      split at h
      next hc =>
        cases h
        exact ⟨hc ▸ rfl, List.not_mem_nil⟩
      next hc =>
        obtain ⟨⟨before', after'⟩, hrest, heq⟩ := Option.map_eq_some_iff.1 h
        cases heq
        obtain ⟨rfl, hnot⟩ := ih hrest
        exact ⟨rfl, List.not_mem_cons_of_ne_of_not_mem (Ne.symm hc) hnot⟩
  · rintro ⟨rfl, h⟩
    exact splitFirst_of_notMem after h

theorem splitFirst_append {sep : Char} {s before after : List Char}
    (h : splitFirst sep s = some (before, after)) : s = before ++ sep :: after :=
  (splitFirst_eq_some_iff.1 h).1

theorem splitAll_eq_splitOn (sep : Char) (s : List Char) : splitAll sep s = s.splitOn sep := by
  induction s with
  | nil => rfl
  | cons c rest ih =>
    rw [splitAll, ih, List.splitOn_cons_eq_if_modifyHead]
    by_cases h : c = sep
    · simp [h]
    · cases hs : rest.splitOn sep with
      | nil => exact absurd hs (List.splitOn_ne_nil _ _)
      | cons piece pieces => simp [h]

theorem dropRight_append (p : Char → Bool) (s : List Char) :
    ∃ dropped, s = dropRight p s ++ dropped ∧ ∀ c ∈ dropped, p c = true := by
  refine ⟨(s.reverse.takeWhile p).reverse, ?_, fun c hc => ?_⟩
  · rw [dropRight, ← List.reverse_append, List.takeWhile_append_dropWhile, List.reverse_reverse]
  · exact List.mem_takeWhile_imp (List.mem_reverse.1 hc)

theorem isBlank_or_mem_trim {c : Char} {s : List Char} (h : c ∈ s) :
    isBlank c = true ∨ c ∈ trim s := by
  obtain ⟨dropped, hs, hdropped⟩ := dropRight_append isBlank (s.dropWhile isBlank)
  rw [← List.takeWhile_append_dropWhile (p := isBlank) (l := s), hs, List.mem_append,
    List.mem_append] at h
  rcases h with h | h | h
  · exact .inl (List.mem_takeWhile_imp h)
  · exact .inr h
  · exact .inl (hdropped c h)

theorem trim_of_not_blank {s : List Char} (h : ∀ c ∈ s, isBlank c = false) : trim s = s := by
  have hdrop {t : List Char} (ht : ∀ c ∈ t, isBlank c = false) : t.dropWhile isBlank = t := by
    rw [List.dropWhile_eq_self_iff]
    intro hpos
    simp [ht _ (List.getElem_mem hpos)]
  rw [trim, strip, hdrop h, dropRight, hdrop fun c hc => h c (List.mem_reverse.1 hc),
    List.reverse_reverse]

theorem trim_append_of_not_blank {lead s : List Char}
    (hlead : (lead.all fun c => !isBlank c) = true) (h : ∀ c ∈ s, isBlank c = false) :
    trim (lead ++ s) = lead ++ s := by
  apply trim_of_not_blank
  intro c hc
  rcases List.mem_append.1 hc with hc | hc
  · simpa using List.all_eq_true.1 hlead c hc
  · exact h c hc

end LinkRelay.Text
