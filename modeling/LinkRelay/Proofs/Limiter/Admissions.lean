import LinkRelay.Proofs.Limiter.Desk
import Mathlib.Data.List.Induction
import Mathlib.Data.List.TakeWhile
set_option autoImplicit false

/-!
# Admissions at one desk

The invariant of a desk. The window remembers every admission that is not yet over, whoever sleeps
with the lock sleeps until it is due, and the log is lawful entry by entry. From this follows
`Desk.Keeps`; that each act of a caller and the passing of time keep the invariant is
`Desk.Sound.join`, `Desk.Sound.act` and `Desk.Sound.pass`.
-/

namespace LinkRelay

variable {log before after : List Entry} {e : Entry} {limit : Limit} {now : Nat}

theorem admissions_append (log : List Entry) (e : Entry) :
    admissions (log ++ [e]) = admissions log ++ e.admitted?.toList := by
  rw [admissions, List.filterMap_append, admissions]
  cases h : e.admitted? with
  | none => rw [List.filterMap_cons_none h]; rfl
  | some a => rw [List.filterMap_cons_some h]; rfl

theorem moments_append (log : List Entry) (e : Entry) :
    moments (log ++ [e]) = moments log ++ (e.admitted?.map (·.moment)).toList := by
  rw [moments, admissions_append, List.map_append, moments]
  cases e.admitted? <;> rfl

theorem locks_append (log : List Entry) (e : Entry) :
    locks (log ++ [e]) = locks log ++ e.locked?.toList := by
  rw [locks, List.filterMap_append, locks]
  cases h : e.locked? with
  | none => rw [List.filterMap_cons_none h]; rfl
  | some a => rw [List.filterMap_cons_some h]; rfl

theorem moment_of_admitted? {a : Admitted} (h : e.admitted? = some a) :
    e.caller = a.caller ∧ e.moment = a.moment ∧ e.deed = .admitted a.since := by
  unfold Entry.admitted? at h
  split at h
  · rename_i hdeed
    cases h
    exact ⟨rfl, rfl, hdeed⟩
  · cases h

def Gone (log : List Entry) (caller : Caller) : Prop :=
  ∃ e ∈ log, e.caller = caller ∧ e.deed.isFinal = true

/-- What an entry must be after the entries before it: it comes in time, its caller is not gone,
    an admission is due, and a count is right. -/
structure Entry.Follows (limit : Limit) (before : List Entry) (e : Entry) : Prop where
  inTime : ∀ e' ∈ before, e'.moment ≤ e.moment
  present : ¬ Gone before e.caller
  due (since : Nat) (h : e.deed = .admitted since) :
    0 < limit.quota ∧ e.moment = limit.due (moments before) since
  right (n : Nat) (h : e.deed = .counted n) :
    before.getLast? = some ⟨e.caller, e.moment, .locked⟩ ∧
      n = ((moments before).filter (limit.covers e.moment)).length

def Lawful (limit : Limit) (log : List Entry) : Prop :=
  ∀ before e after, log = before ++ e :: after → e.Follows limit before

namespace Lawful

theorem append (h : Lawful limit log) (he : e.Follows limit log) : Lawful limit (log ++ [e]) := by
  intro before e' after hsplit
  rcases List.eq_nil_or_concat after with rfl | ⟨after, last, rfl⟩
  · obtain ⟨rfl, hlast⟩ := List.append_inj' hsplit rfl
    cases hlast
    exact he
  · rw [List.concat_eq_append, ← List.cons_append, ← List.append_assoc] at hsplit
    obtain ⟨hlog, -⟩ := List.append_inj' hsplit rfl
    exact h before e' after hlog

theorem of_append (h : Lawful limit (before ++ after)) : Lawful limit before := by
  intro b e a hsplit
  apply h b e (a ++ after)
  rw [hsplit, List.append_assoc, List.cons_append]

theorem chronicle (h : Lawful limit log) : log.Pairwise (·.moment ≤ ·.moment) := by
  induction log using List.reverseRecOn with
  | nil => exact .nil
  | append_singleton log e ih =>
    rw [List.pairwise_append]
    refine ⟨ih h.of_append, List.pairwise_singleton _ e, ?_⟩
    intro e' he' x hx
    rw [List.mem_singleton.mp hx]
    exact (h log e [] rfl).inTime e' he'

theorem mem_of_mem_moments {m : Nat} (h : m ∈ moments log) : ∃ e ∈ log, e.moment = m := by
  obtain ⟨a, ha, rfl⟩ := List.mem_map.mp h
  obtain ⟨e, he, hea⟩ := List.mem_filterMap.mp ha
  exact ⟨e, he, (moment_of_admitted? hea).2.1⟩

theorem moments_sorted (h : Lawful limit log) : (moments log).Pairwise (· ≤ ·) := by
  rw [moments, List.pairwise_map, admissions, List.pairwise_filterMap]
  refine h.chronicle.imp ?_
  intro e e' hle a ha a' ha'
  rwa [← (moment_of_admitted? ha).2.1, ← (moment_of_admitted? ha').2.1]

theorem admission (h : Lawful limit log) {earlier later : List Admitted} {a : Admitted}
    (hsplit : admissions log = earlier ++ a :: later) :
    0 < limit.quota ∧ a.moment = limit.due (earlier.map (·.moment)) a.since := by
  obtain ⟨l₁, l₂, rfl, hearlier, hlater⟩ := List.filterMap_eq_append_iff.mp hsplit
  obtain ⟨skipped, e, l₃, rfl, hskipped, hea, -⟩ := List.filterMap_eq_cons_iff.mp hlater
  obtain ⟨-, hmoment, hdeed⟩ := moment_of_admitted? hea
  have hfollows := h (l₁ ++ skipped) e l₃ (by rw [List.append_assoc])
  have hmoments : moments (l₁ ++ skipped) = earlier.map (·.moment) := by
    rw [moments, admissions, List.filterMap_append, hearlier,
      List.filterMap_eq_nil_iff.mpr hskipped, List.append_nil]
  rw [← hmoment, ← hmoments]
  exact hfollows.due a.since hdeed

theorem final_unique (h : Lawful limit log) {e e' : Entry} (he : e ∈ log) (he' : e' ∈ log)
    (hcaller : e.caller = e'.caller) (hfinal : e.deed.isFinal = true)
    (hfinal' : e'.deed.isFinal = true) : e = e' := by
  induction log using List.reverseRecOn with
  | nil => cases he
  | append_singleton log last ih =>
    have hpresent := (h log last [] rfl).present
    rw [List.mem_append, List.mem_singleton] at he he'
    rcases he with he | rfl
    · rcases he' with he' | rfl
      · exact ih h.of_append he he'
      · exact absurd ⟨e, he, hcaller, hfinal⟩ hpresent
    · rcases he' with he' | rfl
      · exact absurd ⟨e', he', hcaller.symm, hfinal'⟩ hpresent
      · rfl

end Lawful

theorem length_covered_le {ms : List Nat} (hsorted : ms.Pairwise (· ≤ ·))
    (hspaced : ∀ before m after, ms = before ++ m :: after →
      0 < limit.quota ∧ ∀ x, before.reverse[limit.quota - 1]? = some x → x + limit.windowMs ≤ m) :
    (ms.filter (limit.covers now)).length ≤ limit.quota := by
  induction ms using List.reverseRecOn with
  | nil => exact Nat.zero_le _
  | append_singleton ms m ih =>
    obtain ⟨hquota, hm⟩ := hspaced ms m [] rfl
    have hms : (ms.filter (limit.covers now)).length ≤ limit.quota := by
      apply ih (List.pairwise_append.mp hsorted).1
      intro before x after hsplit
      apply hspaced before x (after ++ [m])
      rw [hsplit, List.append_assoc, List.cons_append]
    rw [List.filter_append, List.length_append]
    by_cases hcovered : limit.covers now m
    · -- The moments that share a window with the last one are among the latest before it.
      have hlatest : (ms.filter (limit.covers now)).length ≤ limit.quota - 1 := by
        have hcut := List.take_append_drop (ms.length - (limit.quota - 1)) ms
        have hold : (ms.take (ms.length - (limit.quota - 1))).filter (limit.covers now) = [] := by
          rw [List.filter_eq_nil_iff]
          intro x hx
          obtain ⟨i, hi, hxi⟩ := List.mem_take_iff_getElem.mp hx
          have hj : ms.length - 1 - (limit.quota - 1) < ms.length := by omega
          have hlast : ms.reverse[limit.quota - 1]? =
              some ms[ms.length - 1 - (limit.quota - 1)] := by
            rw [List.getElem?_reverse (by omega), List.getElem?_eq_getElem]
          have hle : x ≤ ms[ms.length - 1 - (limit.quota - 1)] := by
            rw [← hxi]
            rcases Nat.lt_or_eq_of_le
              (show i ≤ ms.length - 1 - (limit.quota - 1) by omega) with hlt | heq
            · exact List.pairwise_iff_getElem.mp (List.pairwise_append.mp hsorted).1 _ _ _ _ hlt
            · simp only [heq, Nat.le_refl]
          have hdue := hm _ hlast
          simp only [Limit.covers, Bool.and_eq_true, decide_eq_true_eq] at hcovered ⊢
          omega
        rw [← hcut, List.filter_append, hold, List.nil_append]
        refine Nat.le_trans (List.length_filter_le ..) ?_
        rw [List.length_drop]
        omega
      rw [List.filter_cons_of_pos hcovered]
      change _ + 1 ≤ _
      omega
    · rw [List.filter_cons_of_neg hcovered]
      exact hms

theorem Lawful.quota (h : Lawful limit log) :
    ((moments log).filter (limit.covers now)).length ≤ limit.quota := by
  apply length_covered_le h.moments_sorted
  intro before m after hsplit
  obtain ⟨earlier, rest, hlog, hearlier, hrest⟩ := List.map_eq_append_iff.mp hsplit
  obtain ⟨a, later, rfl, rfl, -⟩ := List.map_eq_cons_iff.mp hrest
  obtain ⟨hquota, hdue⟩ := h.admission hlog
  refine ⟨hquota, ?_⟩
  intro x hx
  rw [hdue, hearlier, Limit.due, hx]
  exact Nat.le_max_right ..

namespace Window

variable {w : Window} {ms : List Nat} {caller : Caller}

def Remembers (w : Window) (ms : List Nat) (now : Nat) : Prop :=
  ∃ old, ms = old ++ w.admitted ∧ ∀ m ∈ old, m + w.limit.windowMs ≤ now

theorem Remembers.mono {later : Nat} (h : w.Remembers ms now) (hle : now ≤ later) :
    w.Remembers ms later := by
  obtain ⟨old, hms, hold⟩ := h
  exact ⟨old, hms, fun m hm => Nat.le_trans (hold m hm) hle⟩

theorem Remembers.prune (h : w.Remembers ms now) : (w.prune now).Remembers ms now := by
  obtain ⟨old, rfl, hold⟩ := h
  refine ⟨old ++ w.admitted.takeWhile fun t => t + w.limit.windowMs ≤ now, ?_, ?_⟩
  · rw [List.append_assoc]
    exact congrArg (old ++ ·) List.takeWhile_append_dropWhile.symm
  · intro m hm
    rcases List.mem_append.mp hm with hm | hm
    · exact hold m hm
    · have hover := List.mem_takeWhile_imp hm
      exact of_decide_eq_true hover

theorem lt_of_mem_dropWhile {width m : Nat} (hsorted : ms.Pairwise (· ≤ ·))
    (hm : m ∈ ms.dropWhile fun t => t + width ≤ now) : now < m + width := by
  induction ms with
  | nil => cases hm
  | cons x ms ih =>
    obtain ⟨hx, hms⟩ := List.pairwise_cons.mp hsorted
    by_cases hover : x + width ≤ now
    · rw [List.dropWhile_cons_of_pos (by exact decide_eq_true hover)] at hm
      exact ih hms hm
    · rw [List.dropWhile_cons_of_neg (by exact fun h => hover (of_decide_eq_true h))] at hm
      rcases List.mem_cons.mp hm with rfl | hm
      · omega
      · have := hx m hm
        omega

theorem Remembers.recent (h : w.Remembers ms now) (hsorted : ms.Pairwise (· ≤ ·)) {m : Nat}
    (hm : m ∈ (w.prune now).admitted) : now < m + w.limit.windowMs := by
  obtain ⟨old, rfl, -⟩ := h
  exact lt_of_mem_dropWhile (List.pairwise_append.mp hsorted).2.1 hm

theorem Remembers.count_eq (h : w.Remembers ms now) (hsorted : ms.Pairwise (· ≤ ·))
    (hpast : ∀ m ∈ ms, m ≤ now) : w.count now = (ms.filter (w.limit.covers now)).length := by
  obtain ⟨old, hms, hold⟩ := h.prune
  have hover : old.filter (w.limit.covers now) = [] := by
    rw [List.filter_eq_nil_iff]
    intro m hm
    have := hold m hm
    change m + w.limit.windowMs ≤ now at this
    simp only [Limit.covers, Bool.and_eq_true, decide_eq_true_eq]
    omega
  have hcounts : (w.prune now).admitted.filter (w.limit.covers now) = (w.prune now).admitted := by
    rw [List.filter_eq_self]
    intro m hm
    have hrecent := h.recent hsorted hm
    have hle := hpast m (hms ▸ List.mem_append_right _ hm)
    simp only [Limit.covers, Bool.and_eq_true, decide_eq_true_eq]
    exact ⟨hrecent, hle⟩
  rw [hms, List.filter_append, hover, List.nil_append, hcounts]
  rfl

theorem Remembers.due_eq_now (h : w.Remembers ms now)
    (hroom : w.admitted.length < w.limit.quota) : w.limit.due ms now = now := by
  obtain ⟨old, rfl, hold⟩ := h
  rw [Limit.due, List.reverse_append, List.getElem?_append_right (by rw [List.length_reverse]; omega)]
  cases hm : old.reverse[w.limit.quota - 1 - w.admitted.reverse.length]? with
  | none => rfl
  | some m =>
    have := hold m (List.mem_reverse.mp (List.mem_of_getElem? hm))
    exact Nat.max_eq_left this

theorem Remembers.due_of_full (h : w.Remembers ms now) {m since : Nat}
    (hfull : w.admitted.length = w.limit.quota) (hm : w.admitted.head? = some m) :
    w.limit.due ms since = max since (m + w.limit.windowMs) := by
  obtain ⟨old, rfl, -⟩ := h
  have hlength : 0 < w.admitted.length := by
    rw [List.length_pos_iff]
    rintro hnil
    rw [hnil] at hm
    cases hm
  rw [Limit.due, List.reverse_append, List.getElem?_append_left (by rw [List.length_reverse]; omega),
    List.getElem?_reverse (by omega), ← hfull, Nat.sub_self, ← List.head?_eq_getElem?, hm]

theorem ask_cases (hfirst : w.first? = some caller) (now : Nat) :
    (w.limit.quota = 0 ∧ w.ask caller now = (.neverPossible, w.leave caller)) ∨
    ((w.prune now).admitted.length < w.limit.quota ∧ w.ask caller now = (.admitted,
      { w.prune now with admitted := (w.prune now).admitted ++ [now] }.leave caller)) ∨
    (0 < w.limit.quota ∧ w.limit.quota ≤ (w.prune now).admitted.length ∧ w.ask caller now =
      (.notBefore (((w.prune now).admitted.head?.getD now) + w.limit.windowMs), w.prune now)) := by
  unfold ask
  rw [if_neg (not_not_intro hfirst)]
  by_cases hzero : w.limit.quota = 0
  · rw [if_pos hzero]
    exact .inl ⟨hzero, rfl⟩
  · rw [if_neg hzero]
    by_cases hroom : (w.prune now).admitted.length < w.limit.quota
    · exact .inr (.inl ⟨hroom, if_pos hroom⟩)
    · exact .inr (.inr ⟨Nat.pos_of_ne_zero hzero, Nat.le_of_not_lt hroom, if_neg hroom⟩)

end Window

structure Standing (line : List Caller) (log : List Entry) : Prop where
  nodup : line.Nodup
  known : ∀ c ∈ line, ∃ e ∈ log, e.caller = c
  present : ∀ c ∈ line, ¬ Gone log c

namespace Standing

variable {line : List Caller} {c : Caller}

theorem gone_append : Gone (log ++ [e]) c ↔ Gone log c ∨ e.caller = c ∧ e.deed.isFinal = true := by
  simp only [Gone, List.mem_append, List.mem_singleton, or_and_right, exists_or, exists_eq_left]

theorem known_append (h : Standing line log) :
    ∀ c ∈ line, ∃ e' ∈ log ++ [e], e'.caller = c := by
  intro c hc
  obtain ⟨e', he', hcaller⟩ := h.known c hc
  exact ⟨e', List.mem_append_left _ he', hcaller⟩

theorem note (h : Standing line log) (hopen : e.deed.isFinal = false) :
    Standing line (log ++ [e]) := by
  refine ⟨h.nodup, h.known_append, ?_⟩
  intro c hc hgone
  rcases gone_append.mp hgone with hgone | ⟨-, hfinal⟩
  · exact h.present c hc hgone
  · exact Bool.false_ne_true (hopen.symm.trans hfinal)

theorem join (h : Standing line log) (hnew : ∀ e' ∈ log, e'.caller ≠ e.caller)
    (hopen : e.deed.isFinal = false) : Standing (line ++ [e.caller]) (log ++ [e]) := by
  have hline : e.caller ∉ line := by
    intro hmem
    obtain ⟨e', he', hcaller⟩ := h.known _ hmem
    exact hnew e' he' hcaller
  have hnoted := h.note hopen
  refine ⟨?_, ?_, ?_⟩
  · rw [List.nodup_append]
    refine ⟨h.nodup, List.pairwise_singleton _ _, ?_⟩
    intro c hc c' hc' heq
    rw [List.mem_singleton.mp hc'] at heq
    exact hline (heq ▸ hc)
  · intro c hc
    rcases List.mem_append.mp hc with hc | hc
    · exact hnoted.known c hc
    · exact ⟨e, List.mem_append_right _ (List.mem_singleton_self e), (List.mem_singleton.mp hc).symm⟩
  · intro c hc hgone
    rcases List.mem_append.mp hc with hc | hc
    · exact hnoted.present c hc hgone
    · rw [List.mem_singleton.mp hc] at hgone
      rcases gone_append.mp hgone with ⟨e', he', hcaller, -⟩ | ⟨-, hfinal⟩
      · exact hnew e' he' hcaller
      · exact Bool.false_ne_true (hopen.symm.trans hfinal)

theorem leave (h : Standing line log) (e : Entry) :
    Standing (line.erase e.caller) (log ++ [e]) := by
  refine ⟨h.nodup.erase _, fun c hc => h.known_append c (List.mem_of_mem_erase hc), ?_⟩
  intro c hc hgone
  rcases gone_append.mp hgone with hgone | ⟨rfl, -⟩
  · exact h.present c (List.mem_of_mem_erase hc) hgone
  · exact h.nodup.not_mem_erase hc

end Standing

def served (log : List Entry) : List (Caller × Nat) :=
  (admissions log).map fun a => (a.caller, a.since)

theorem served_append (log : List Entry) (e : Entry) :
    served (log ++ [e]) = served log ++ (e.admitted?.map fun a => (a.caller, a.since)).toList := by
  rw [served, admissions_append, List.map_append, served]
  cases e.admitted? <;> rfl

namespace Desk

/-- What holds of a window and its log whoever has the lock. -/
structure Core (w : Window) (log : List Entry) (clock : Nat) : Prop where
  standing : Standing w.line log
  lawful : Lawful w.limit log
  past : ∀ e ∈ log, e.moment ≤ clock
  remembers : w.Remembers (moments log) clock
  bounded : w.admitted.length ≤ w.limit.quota

structure Holds (w : Window) (log : List Entry) (caller : Caller) (since : Nat) : Prop where
  first : w.first? = some caller
  last : (locks log).getLast? = some (caller, since)
  order : (served log).Sublist (locks log).dropLast

structure Dozes (w : Window) (log : List Entry) (clock : Nat) (s : Sleeper) : Prop where
  holds : Holds w log s.caller s.since
  later : s.since < s.wakes
  awaited : clock ≤ s.wakes
  full : w.admitted.length = w.limit.quota
  oldest : ∃ m, w.admitted.head? = some m ∧ s.wakes = m + w.limit.windowMs

structure Sound (d : Desk) (clock : Nat) : Prop where
  core : Core d.window d.log clock
  order : (served d.log).Sublist (locks d.log)
  asleep : ∀ s, d.book.asleep = some s → Dozes d.window d.log clock s

namespace Core

variable {w w' : Window} {clock : Nat}

theorem append (h : Core w log now) (he : e.Follows w.limit log) (hlimit : w'.limit = w.limit)
    (hmoment : e.moment = now) (hstanding : Standing w'.line (log ++ [e]))
    (hremembers : w'.Remembers (moments (log ++ [e])) now)
    (hbounded : w'.admitted.length ≤ w'.limit.quota) : Core w' (log ++ [e]) now := by
  refine ⟨hstanding, hlimit ▸ h.lawful.append he, ?_, hremembers, hbounded⟩
  intro e' he'
  rcases List.mem_append.mp he' with he' | he'
  · exact h.past e' he'
  · rw [List.mem_singleton.mp he', hmoment]

theorem past_moments (h : Core w log clock) : ∀ m ∈ moments log, m ≤ clock := by
  intro m hm
  obtain ⟨e, he, rfl⟩ := Lawful.mem_of_mem_moments hm
  exact h.past e he

theorem mono (h : Core w log clock) (hle : clock ≤ now) : Core w log now :=
  ⟨h.standing, h.lawful, fun e he => Nat.le_trans (h.past e he) hle, h.remembers.mono hle, h.bounded⟩

theorem prune (h : Core w log now) : Core (w.prune now) log now := by
  refine ⟨h.standing, h.lawful, h.past, h.remembers.prune, ?_⟩
  exact Nat.le_trans (List.dropWhile_sublist _).length_le h.bounded

theorem follows (h : Core w log now) {c : Caller} {deed : Deed} (hc : ¬ Gone log c)
    (hplain : deed.isPlain = true) : Entry.Follows w.limit log ⟨c, now, deed⟩ := by
  refine ⟨h.past, hc, ?_, ?_⟩
  · rintro since rfl
    cases hplain
  · rintro n rfl
    cases hplain

theorem lock (h : Core w log now) {c : Caller} (hc : c ∈ w.line) :
    Core w (log ++ [⟨c, now, .locked⟩]) now := by
  have hmoments : moments (log ++ [⟨c, now, .locked⟩]) = moments log :=
    (moments_append ..).trans (List.append_nil _)
  refine h.append (h.follows (h.standing.present c hc) rfl) rfl rfl (h.standing.note rfl) ?_ h.bounded
  rw [hmoments]
  exact h.remembers

theorem depart (h : Core w log now) {c : Caller} {deed : Deed}
    (he : Entry.Follows w.limit log ⟨c, now, deed⟩)
    (hnone : Entry.admitted? ⟨c, now, deed⟩ = none) :
    Core (w.leave c) (log ++ [⟨c, now, deed⟩]) now := by
  have hstanding : Standing (w.leave c).line (log ++ [⟨c, now, deed⟩]) :=
    h.standing.leave ⟨c, now, deed⟩
  refine h.append he rfl rfl hstanding ?_ h.bounded
  rw [moments_append, hnone]
  exact (List.append_nil (moments log)).symm ▸ h.remembers

end Core

theorem mem_of_first? {w : Window} {c : Caller} (h : w.first? = some c) : c ∈ w.line :=
  List.mem_of_head? h

theorem since_of_awake {d : Desk} (h : d.book.asleep = none) : d.book.since now = now := by
  rw [Book.since, h]
  rfl

theorem locked_of_awake {d : Desk} {c : Caller} (h : d.book.asleep = none) :
    (d.book.locked c now).log = d.log ++ [⟨c, now, .locked⟩] := by
  rw [Book.locked, h]
  rfl

/-- What holds when a caller at the head of the line has its turn: it has the lock, and if it slept
    with it, it wakes at the moment it is due. -/
structure Turn (w : Window) (log : List Entry) (caller : Caller) (since now : Nat) : Prop where
  core : Core w log now
  holds : Holds w log caller since
  woken : since = now ∨ since < now ∧ w.admitted.length = w.limit.quota ∧
    ∃ m, w.admitted.head? = some m ∧ now = m + w.limit.windowMs

namespace Sound

variable {d : Desk} {clock : Nat} {c : Caller}

theorem lock (h : d.Sound now) (hfirst : d.window.first? = some c) :
    Turn d.window (d.log ++ [⟨c, now, .locked⟩]) c now now := by
  have hlocks : locks (d.log ++ [⟨c, now, .locked⟩]) = locks d.log ++ [(c, now)] := locks_append ..
  have hserved : served (d.log ++ [⟨c, now, .locked⟩]) = served d.log :=
    (served_append ..).trans (List.append_nil _)
  refine ⟨h.core.lock (mem_of_first? hfirst), ⟨hfirst, ?_, ?_⟩, .inl rfl⟩
  · rw [hlocks, List.getLast?_append]
    rfl
  · rw [hlocks, hserved, List.dropLast_concat]
    exact h.order

theorem turn (h : d.Sound now) (hmay : d.May c now .ask) :
    Turn d.window (d.book.locked c now).log c (d.book.since now) now := by
  obtain ⟨hfirst, hawake⟩ := hmay
  cases hasleep : d.book.asleep with
  | none =>
    rw [locked_of_awake hasleep, since_of_awake hasleep]
    exact h.lock hfirst
  | some s =>
    obtain ⟨hholds, hlater, hawaited, hfull, m, hm, hwakes⟩ := h.asleep s hasleep
    have hcaller : s.caller = c := Option.some_inj.mp (hholds.first.symm.trans hfirst)
    have hnow : now = s.wakes := Nat.le_antisymm hawaited (hawake s hasleep)
    have hlog : (d.book.locked c now).log = d.log := by
      rw [Book.locked, hasleep]
      rfl
    have hsince : d.book.since now = s.since := by
      rw [Book.since, hasleep]
      rfl
    rw [hlog, hsince]
    refine ⟨h.core, hcaller ▸ hholds, .inr ⟨hnow ▸ hlater, hfull, m, hm, ?_⟩⟩
    rw [hnow, hwakes]

end Sound

namespace Turn

variable {w : Window} {c : Caller} {since : Nat}

theorem since_eq_of_full (h : Turn w log c since now)
    (hfull : w.limit.quota ≤ (w.prune now).admitted.length) : since = now := by
  rcases h.woken with heq | ⟨-, hlength, m, hm, hnow⟩
  · exact heq
  · exfalso
    obtain ⟨rest, hadmitted⟩ := List.head?_eq_some_iff.mp hm
    have hpruned : (w.prune now).admitted = rest.dropWhile fun t => t + w.limit.windowMs ≤ now := by
      change w.admitted.dropWhile _ = _
      rw [hadmitted, List.dropWhile_cons_of_pos (by exact decide_eq_true (Nat.le_of_eq hnow.symm))]
    have hrest : (w.prune now).admitted.length ≤ rest.length :=
      hpruned ▸ (List.dropWhile_sublist _).length_le
    rw [hadmitted, List.length_cons] at hlength
    omega

theorem due (h : Turn w log c since now) (hroom : (w.prune now).admitted.length < w.limit.quota) :
    now = w.limit.due (moments log) since := by
  rcases h.woken with rfl | ⟨hlt, hlength, m, hm, hnow⟩
  · exact (h.core.remembers.prune.due_eq_now hroom).symm
  · rw [h.core.remembers.due_of_full hlength hm, ← hnow, Nat.max_eq_right (Nat.le_of_lt hlt)]

theorem admitted (h : Turn w log c since now) (hroom : (w.prune now).admitted.length < w.limit.quota) :
    Core ({ w.prune now with admitted := (w.prune now).admitted ++ [now] }.leave c)
      (log ++ [⟨c, now, .admitted since⟩]) now := by
  have hfollows : Entry.Follows w.limit log ⟨c, now, .admitted since⟩ := by
    refine ⟨h.core.past, h.core.standing.present c (mem_of_first? h.holds.first), ?_, nofun⟩
    rintro _ ⟨⟩
    exact ⟨Nat.zero_lt_of_lt hroom, h.due hroom⟩
  have hmoments : moments (log ++ [⟨c, now, .admitted since⟩]) = moments log ++ [now] :=
    moments_append ..
  have hstanding : Standing (w.line.erase c) (log ++ [⟨c, now, .admitted since⟩]) :=
    h.core.standing.leave ⟨c, now, .admitted since⟩
  refine h.core.append hfollows rfl rfl hstanding ?_ ?_
  · obtain ⟨old, hold, hover⟩ := h.core.remembers.prune
    refine ⟨old, ?_, hover⟩
    rw [hmoments, hold, List.append_assoc]
    rfl
  · change ((w.prune now).admitted ++ [now]).length ≤ w.limit.quota
    rw [List.length_append]
    exact hroom

theorem doze (h : Turn w log c since now) (hquota : 0 < w.limit.quota)
    (hfull : w.limit.quota ≤ (w.prune now).admitted.length) : Dozes (w.prune now) log now
      ⟨c, since, (w.prune now).admitted.head?.getD now + w.limit.windowMs⟩ := by
  cases hm : (w.prune now).admitted.head? with
  | none =>
    rw [List.head?_eq_none_iff.mp hm, List.length_nil] at hfull
    omega
  | some m =>
    have hrecent := h.core.remembers.recent h.core.lawful.moments_sorted (List.mem_of_head? hm)
    refine ⟨⟨h.holds.first, h.holds.last, h.holds.order⟩, ?_, ?_, ?_, m, hm, rfl⟩
    · rw [h.since_eq_of_full hfull]
      exact hrecent
    · exact Nat.le_of_lt hrecent
    · exact Nat.le_antisymm h.core.prune.bounded hfull

end Turn

theorem Holds.order_admitted {w : Window} {c : Caller} {since : Nat} (h : Holds w log c since) :
    (served (log ++ [⟨c, now, .admitted since⟩])).Sublist
      (locks (log ++ [⟨c, now, .admitted since⟩])) := by
  obtain ⟨earlier, hlocks⟩ := List.getLast?_eq_some_iff.mp h.last
  have horder := h.order
  rw [hlocks, List.dropLast_concat] at horder
  rw [served_append, locks_append, hlocks]
  exact (List.append_nil (earlier ++ [(c, since)])).symm ▸ horder.append (List.Sublist.refl _)

theorem Holds.order_locks {w : Window} {c : Caller} {since : Nat} (h : Holds w log c since) :
    (served log).Sublist (locks log) := h.order.trans (List.dropLast_sublist _)

theorem order_append (h : (served log).Sublist (locks log)) (hadmitted : e.admitted? = none)
    (hlocked : e.locked? = none) : (served (log ++ [e])).Sublist (locks (log ++ [e])) := by
  rw [served_append, locks_append, hadmitted, hlocked]
  simpa using h

namespace Sound

variable {d : Desk} {clock : Nat} {c : Caller}

theorem fresh (name : String) (limit : Limit) (clock : Nat) : (Desk.fresh name limit).Sound clock where
  core := {
    standing := ⟨.nil, nofun, nofun⟩
    lawful := by
      intro before e after h
      cases before <;> cases h
    past := nofun
    remembers := ⟨[], rfl, nofun⟩
    bounded := Nat.zero_le _ }
  order := .slnil
  asleep := nofun

theorem pass (h : d.Sound clock) (hle : clock ≤ now)
    (hawake : ∀ s, d.book.asleep = some s → now ≤ s.wakes) : d.Sound now := by
  refine ⟨h.core.mono hle, h.order, ?_⟩
  intro s hs
  obtain ⟨hholds, hlater, -, hfull, holdest⟩ := h.asleep s hs
  exact ⟨hholds, hlater, hawake s hs, hfull, holdest⟩

theorem join (h : d.Sound now) (hnew : d.book.knows c = false) : (d.join c now).Sound now := by
  have hnew : ∀ e ∈ d.log, e.caller ≠ c := by
    intro e he hc
    rw [Book.knows, List.any_eq_false] at hnew
    exact hnew e he (beq_iff_eq.mpr hc)
  have hgone : ¬ Gone d.log c := fun ⟨e, he, hc, _⟩ => hnew e he hc
  have hmoments : moments (d.log ++ [⟨c, now, .arrived⟩]) = moments d.log :=
    (moments_append ..).trans (List.append_nil _)
  have hlocks : locks (d.log ++ [⟨c, now, .arrived⟩]) = locks d.log :=
    (locks_append ..).trans (List.append_nil _)
  have hserved : served (d.log ++ [⟨c, now, .arrived⟩]) = served d.log :=
    (served_append ..).trans (List.append_nil _)
  have hstanding : Standing (d.window.join c).line (d.log ++ [⟨c, now, .arrived⟩]) :=
    h.core.standing.join (e := ⟨c, now, .arrived⟩) hnew rfl
  have hcore : Core (d.window.join c) (d.log ++ [⟨c, now, .arrived⟩]) now := by
    refine h.core.append (h.core.follows hgone rfl) rfl rfl hstanding ?_ h.core.bounded
    rw [hmoments]
    exact h.core.remembers
  refine ⟨hcore, order_append h.order rfl rfl, ?_⟩
  intro s hs
  obtain ⟨⟨hfirst, hlast, horder⟩, hlater, hawaited, hfull, holdest⟩ := h.asleep s hs
  refine ⟨⟨?_, hlocks ▸ hlast, hlocks ▸ hserved ▸ horder⟩, hlater, hawaited, hfull, holdest⟩
  change (d.window.line ++ [c]).head? = _
  rw [List.head?_append, show d.window.line.head? = _ from hfirst]
  rfl

theorem ask (h : d.Sound now) (hmay : d.May c now .ask) : (d.act c now .ask).Sound now := by
  have hturn := h.turn hmay
  have hpresent := hturn.core.standing.present c (mem_of_first? hmay.1)
  unfold act
  rcases d.window.ask_cases hmay.1 now with ⟨-, hask⟩ | ⟨hroom, hask⟩ | ⟨hquota, hfull, hask⟩
  · -- The quota is zero, and the caller is turned away.
    rw [hask]
    refine ⟨?_, order_append hturn.holds.order_locks rfl rfl, nofun⟩
    exact hturn.core.depart (hturn.core.follows hpresent rfl) rfl
  · -- There is room, and the caller is admitted.
    rw [hask]
    exact ⟨hturn.admitted hroom, hturn.holds.order_admitted, nofun⟩
  · -- The window is full, and the caller sleeps.
    rw [hask]
    refine ⟨hturn.core.prune, hturn.holds.order_locks, ?_⟩
    intro s hs
    cases hs
    exact hturn.doze hquota hfull

theorem inspect (h : d.Sound now) (hmay : d.May c now .inspect) :
    (d.act c now .inspect).Sound now := by
  obtain ⟨hfirst, hawake⟩ := hmay
  have hturn := h.lock hfirst
  have hcounted : Entry.Follows d.limit (d.log ++ [⟨c, now, .locked⟩])
      ⟨c, now, .counted (d.window.count now)⟩ := by
    refine ⟨hturn.core.past, hturn.core.standing.present c (mem_of_first? hfirst), nofun, ?_⟩
    rintro _ ⟨⟩
    refine ⟨by rw [List.getLast?_append]; rfl, ?_⟩
    exact hturn.core.remembers.count_eq hturn.core.lawful.moments_sorted hturn.core.past_moments
  have hact : d.act c now .inspect =
      ⟨(d.window.prune now).leave c, d.book.counted c now (d.window.count now)⟩ := by
    rw [act, Window.inspect, if_neg (not_not_intro hfirst)]
  rw [hact]
  refine ⟨hturn.core.prune.depart hcounted rfl, order_append hturn.holds.order_locks rfl rfl, ?_⟩
  intro s hs
  cases hawake.symm.trans hs

theorem leave (h : d.Sound now) (hmay : d.May c now .leave) : (d.act c now .leave).Sound now := by
  have hpresent := h.core.standing.present c hmay
  have hlocks : locks (d.log ++ [⟨c, now, .abandoned⟩]) = locks d.log :=
    (locks_append ..).trans (List.append_nil _)
  have hserved : served (d.log ++ [⟨c, now, .abandoned⟩]) = served d.log :=
    (served_append ..).trans (List.append_nil _)
  refine ⟨h.core.depart (h.core.follows hpresent rfl) rfl, order_append h.order rfl rfl, ?_⟩
  intro s hs
  obtain ⟨hs, hother⟩ := Option.filter_eq_some_iff.mp hs
  obtain ⟨⟨hfirst, hlast, horder⟩, hlater, hawaited, hfull, holdest⟩ := h.asleep s hs
  refine ⟨⟨?_, hlocks ▸ hlast, hlocks ▸ hserved ▸ horder⟩, hlater, hawaited, hfull, holdest⟩
  -- Whoever has the lock is another caller, and stays first.
  obtain ⟨rest, hline⟩ := List.head?_eq_some_iff.mp hfirst
  change (d.window.line.erase c).head? = _
  rw [hline, List.erase_cons_tail (by simpa using hother)]
  rfl

theorem act (h : d.Sound now) (a : Act) (hmay : d.May c now a) : (d.act c now a).Sound now := by
  cases a with
  | ask => exact h.ask hmay
  | inspect => exact h.inspect hmay
  | leave => exact h.leave hmay

theorem keeps (h : d.Sound clock) : d.Keeps clock where
  quota now := h.core.lawful.quota
  order := h.order
  exact before a after hsplit := (h.core.lawful.admission hsplit).2
  waiting := by
    intro s hs
    obtain ⟨hholds, hlater, hawaited, hfull, m, hm, hwakes⟩ := h.asleep s hs
    refine ⟨hholds.first, ?_, hlater, hawaited⟩
    have hdue : d.limit.due (moments d.log) s.since = _ := h.core.remembers.due_of_full hfull hm
    rw [← hwakes, Nat.max_eq_right (Nat.le_of_lt hlater)] at hdue
    exact hdue.symm
  abandoned := by
    intro c moment hmem
    refine ⟨fun hc => h.core.standing.present c hc ⟨_, hmem, rfl, rfl⟩, ?_⟩
    intro a ha hcaller
    obtain ⟨e, he, hea⟩ := List.mem_filterMap.mp ha
    obtain ⟨hec, -, hdeed⟩ := moment_of_admitted? hea
    have hsame := h.core.lawful.final_unique hmem he (hcaller.symm.trans hec.symm) rfl (by rw [hdeed]; rfl)
    rw [← hsame] at hdeed
    cases hdeed
  entries := by
    obtain ⟨old, hold, -⟩ := h.core.remembers
    exact ⟨old, hold.symm⟩
  counted before c moment n after hsplit := (h.core.lawful before _ after hsplit).right n rfl
  chronicle := ⟨h.core.lawful.chronicle, h.core.past⟩

end Sound

end Desk

end LinkRelay
