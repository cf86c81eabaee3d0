import LinkRelay.Proofs.Limiter.Admissions
set_option autoImplicit false

/-!
# The admissions at a window since some moment

A window is compared with an earlier state of itself. Whoever asks there, in whatever order, the
moments of the admissions since then keep their distance, so no interval that is as long as the
window holds more of them than the quota.
-/

namespace LinkRelay

namespace Window

structure Since (first : Window) (ms : List Nat) (now : Nat) (w : Window) : Prop where
  limit : w.limit = first.limit
  remembers : w.Remembers (first.admitted ++ ms) now
  past : ∀ m ∈ ms, m ≤ now
  sorted : ms.Pairwise (· ≤ ·)
  spaced : ∀ before m after, ms = before ++ m :: after → 0 < first.limit.quota ∧
    ∀ x, before.reverse[first.limit.quota - 1]? = some x → x + first.limit.windowMs ≤ m

namespace Since

variable {first w w' : Window} {ms : List Nat} {now later : Nat}

theorem rfl : Since w [] now w where
  limit := Eq.refl _
  remembers := ⟨[], by rw [List.append_nil, List.nil_append], nofun⟩
  past := nofun
  sorted := .nil
  spaced before m after h := by cases before <;> cases h

theorem mono (h : Since first ms now w) (hle : now ≤ later) : Since first ms later w :=
  { h with
    remembers := h.remembers.mono hle
    past := fun m hm => Nat.le_trans (h.past m hm) hle }

theorem alike (h : Since first ms now w) (hlimit : w'.limit = w.limit)
    (hadmitted : w'.admitted = w.admitted) : Since first ms now w' :=
  { h with
    limit := hlimit.trans h.limit
    remembers := by
      unfold Remembers
      rw [hlimit, hadmitted]
      exact h.remembers }

theorem prune (h : Since first ms now w) : Since first ms now (w.prune now) :=
  { h with limit := h.limit, remembers := h.remembers.prune }

theorem admitted (h : Since first ms now w) (caller : Caller)
    (hroom : (w.prune now).admitted.length < w.limit.quota) : Since first (ms ++ [now]) now
      ({ w.prune now with admitted := (w.prune now).admitted ++ [now] }.leave caller) where
  limit := h.limit
  remembers := by
    obtain ⟨old, hold, hover⟩ := h.remembers.prune
    refine ⟨old, ?_, hover⟩
    rw [← List.append_assoc, hold, List.append_assoc]
    exact Eq.refl _
  past m hm := (List.mem_append.1 hm).elim (h.past m) fun hm =>
    Nat.le_of_eq (List.mem_singleton.1 hm)
  sorted := List.pairwise_append.2 ⟨h.sorted, List.pairwise_singleton _ _, fun m hm m' hm' => by
    rw [List.mem_singleton.1 hm']
    exact h.past m hm⟩
  spaced before m after hsplit := by
    rcases List.eq_nil_or_concat after with rfl | ⟨after, last, rfl⟩
    · obtain ⟨rfl, hlast⟩ := List.append_inj' hsplit (Eq.refl _)
      cases hlast
      have hdue := h.remembers.prune.due_eq_now hroom
      rw [← h.limit]
      refine ⟨Nat.zero_lt_of_lt hroom, fun x hx => ?_⟩
      -- with those from before, the same moment is the quota's last
      have hx' : (first.admitted ++ ms).reverse[w.limit.quota - 1]? = some x := by
        rw [List.reverse_append,
          List.getElem?_append_left (List.getElem?_eq_some_iff.1 hx).1, hx]
      rw [Limit.due, show (w.prune now).limit = w.limit from Eq.refl _, hx'] at hdue
      dsimp only at hdue
      omega
    · rw [List.concat_eq_append, ← List.cons_append, ← List.append_assoc] at hsplit
      obtain ⟨rfl, -⟩ := List.append_inj' hsplit (Eq.refl _)
      exact h.spaced before m after (Eq.refl _)

theorem ask (h : Since first ms now w) (caller : Caller) :
    Since first (ms ++ if (w.ask caller now).1 = .admitted then [now] else []) now
      (w.ask caller now).2 := by
  by_cases hfirst : w.first? = some caller
  · rcases w.ask_cases hfirst now with ⟨-, hask⟩ | ⟨hroom, hask⟩ | ⟨-, -, hask⟩ <;> rw [hask]
    · rw [if_neg nofun, List.append_nil]
      exact h.alike (Eq.refl _) (Eq.refl _)
    · rw [if_pos (Eq.refl _)]
      exact h.admitted caller hroom
    · rw [if_neg nofun, List.append_nil]
      exact h.prune
  · have hask : w.ask caller now = (.notFirst, w) := if_pos hfirst
    rw [hask, if_neg nofun, List.append_nil]
    exact h

/-- In no interval that is as long as the window there are more admissions than the quota. -/
theorem quota (h : Since first ms now w) (start : Nat) :
    (ms.filter fun m => start ≤ m && m < start + first.limit.windowMs).length ≤
      first.limit.quota := by
  have hcovered : (ms.filter (first.limit.covers (start + first.limit.windowMs - 1))).length ≤
      first.limit.quota := length_covered_le h.sorted h.spaced
  refine Nat.le_trans (Nat.le_of_eq ?_) hcovered
  refine congrArg List.length (List.filter_congr fun m _ => ?_)
  rw [Limit.covers, Bool.eq_iff_iff]
  simp only [Bool.and_eq_true, decide_eq_true_eq]
  omega

end Since

end Window

end LinkRelay
