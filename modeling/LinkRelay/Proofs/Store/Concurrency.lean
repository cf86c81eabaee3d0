import Mathlib.Algebra.GroupWithZero.Nat
import LinkRelay.Proofs.Store.Turns
set_option autoImplicit false

/-!
# Concurrent calls come to one call at a time

What the callers see of concurrent calls: each write is answered as in the sequence of turns, each
look from the store between two turns, and no call waits forever.
-/

namespace LinkRelay

namespace Writers

variable {s : Writers} {i j : Nat} {c : Call} {stage : CallStage}

def isOverAt (s : Writers) (i : Nat) : Bool := s.calls[i]?.any fun c => c.2.isOver

def overAfter (s : Writers) (schedule : List Nat) : List Nat :=
  (s.turns schedule).filter (s.run schedule).isOverAt

theorem Orderly.filter_over {store : Store} {calls : List Call} {done holder : List Nat}
    (h : Orderly store calls done holder s) : (done ++ holder).filter s.isOverAt = done := by
  have hdone : ∀ i ∈ done, s.isOverAt i = true := by
    intro i hi
    obtain ⟨w, answer, hover⟩ := h.isOver_of_done hi
    rw [isOverAt, hover]
    rfl
  have hholder : ∀ i ∈ holder, ¬ s.isOverAt i = true := by
    intro i hi
    obtain ⟨w, stage, hstage, -, -, hover⟩ := h.phase_of_mem hi
    rw [isOverAt, hstage, Option.any_some, hover]
    exact Bool.false_ne_true
  rw [List.filter_append, List.filter_eq_self.2 hdone, List.filter_eq_nil_iff.2 hholder,
    List.append_nil]

theorem step_of_ne (h : j ≠ i) : (s.step i).calls[j]? = s.calls[j]? := by
  have hmove : ∀ next, (s.move i next).calls[j]? = s.calls[j]? := getElem?_move_of_ne h
  unfold step
  split
  · split
    · exact hmove _
    · rfl
  · exact hmove _
  next w hi =>
    split
    · cases w with
      | upsert => exact hmove _
      | delete path =>
        rw [enter]
        split
        · exact hmove _
        · exact hmove _
    · rfl
  next w records hi =>
    split
    · cases w with
      | upsert => exact hmove _
      | delete => rfl
    · rfl
  · exact hmove _
  · rfl

theorem Orderly.look_step {store : Store} {calls : List Call} {done holder : List Nat}
    (h : Orderly store calls done holder s) {q : Look} {answer : StoreAnswer}
    (hi : (s.step j).calls[i]? = some (.look q, .ended answer)) :
    s.calls[i]? = some (.look q, .ended answer) ∨
      j = i ∧ answer = (store.afterWrites (writesAt calls done)).look q := by
  by_cases hne : i = j
  · subst hne
    obtain ⟨done', holder', h', -⟩ := h.step i
    obtain ⟨stage, hstage⟩ : ∃ stage, s.calls[i]? = some (.look q, stage) := by
      have hmade : (s.calls.map (·.1))[i]? = some (.look q) := by
        rw [h.made, ← h'.made, List.getElem?_map, hi]
        rfl
      rw [List.getElem?_map, Option.map_eq_some_iff] at hmade
      obtain ⟨⟨_, stage⟩, hstage, rfl⟩ := hmade
      exact ⟨stage, hstage⟩
    rcases h.looks i q stage hstage with rfl | ⟨answer', rfl⟩
    · simp only [Writers.step, hstage] at hi
      by_cases hfree : s.changing = none
      · rw [if_pos hfree, getElem?_move hstage] at hi
        cases hi
        rw [← h.store_of_free hfree]
        exact .inr ⟨rfl, rfl⟩
      · rw [if_neg hfree] at hi
        exact .inl hi
    · simp only [Writers.step, hstage] at hi
      cases hi
      exact .inl hstage
  · rw [step_of_ne hne] at hi
    exact .inl hi

theorem look_answer (store : Store) (calls : List Call) (schedule : List Nat) {q : Look}
    {answer : StoreAnswer}
    (hi : ((start store calls).run schedule).calls[i]? = some (.look q, .ended answer)) :
    ∃ before after, schedule = before ++ i :: after ∧
      (start store calls).overAfter before <+: (start store calls).turns schedule ∧
      answer =
        (store.afterWrites (writesAt calls ((start store calls).overAfter before))).look q := by
  induction schedule using List.reverseRecOn with
  | nil =>
    change (start store calls).calls[i]? = _ at hi
    rw [start, List.getElem?_map, Option.map_eq_some_iff] at hi
    obtain ⟨c, -, hc⟩ := hi
    cases congrArg Prod.snd hc
  | append_singleton schedule j ih =>
    obtain ⟨done, holder, h, hturns⟩ := orderly_run store calls schedule
    rw [run_append] at hi
    rcases h.look_step hi with hbefore | ⟨rfl, hanswer⟩
    · obtain ⟨before, after, hschedule, hearlier, hanswer⟩ := ih hbefore
      refine ⟨before, after ++ [j], ?_, hearlier.trans (turns_extend _ _ _), hanswer⟩
      rw [hschedule, List.append_assoc]
      rfl
    · have hover : (start store calls).overAfter schedule = done := by
        rw [overAfter, hturns, h.filter_over]
      refine ⟨schedule, [], rfl, ?_, hover ▸ hanswer⟩
      rw [hover]
      refine .trans ?_ (turns_extend _ schedule [j])
      exact hturns ▸ List.prefix_append done holder

end Writers

def CallStage.toGo : CallStage → Nat
  | .arriving => 4
  | .waiting => 3
  | .loaded _ => 2
  | .changing .. => 1
  | .ended _ => 0

namespace Writers

variable {s : Writers} {i : Nat} {c : Call} {stage : CallStage}

def toGo (s : Writers) : Nat := (s.calls.map (·.2.toGo)).sum

theorem sum_toGo_modify {calls : List (Call × CallStage)} {next : CallStage}
    (hi : calls[i]? = some (c, stage)) (hless : next.toGo < stage.toGo) :
    ((calls.modify i fun c => (c.1, next)).map (·.2.toGo)).sum < (calls.map (·.2.toGo)).sum := by
  induction calls generalizing i with
  | nil => cases hi
  | cons first rest ih =>
    cases i with
    | zero =>
      cases hi
      exact Nat.add_lt_add_right hless _
    | succ i => exact Nat.add_lt_add_left (ih hi) _

theorem toGo_move {next : CallStage} (hi : s.calls[i]? = some (c, stage))
    (hless : next.toGo < stage.toGo) : (s.move i next).toGo < s.toGo :=
  sum_toGo_modify hi hless

theorem toGo_enter {w : Write} (hi : s.calls[i]? = some (.write w, .waiting)) :
    (s.enter i w).toGo < s.toGo := by
  cases w with
  | upsert path => exact toGo_move hi (show 2 < 3 by decide)
  | delete path =>
    rw [enter]
    split
    · exact toGo_move hi (show 0 < 3 by decide)
    · exact toGo_move hi (show 1 < 3 by decide)

theorem step_cases (s : Writers) (i : Nat) : s.step i = s ∨ (s.step i).toGo < s.toGo := by
  unfold step
  split
  next q hi =>
    split
    · exact .inr (toGo_move hi (show 0 < 4 by decide))
    · exact .inl rfl
  next w hi => exact .inr (toGo_move hi (show 3 < 4 by decide))
  next w hi =>
    split
    · exact .inr (toGo_enter hi)
    · exact .inl rfl
  next w records hi =>
    split
    · cases w with
      | upsert => exact .inr (toGo_move hi (show 1 < 2 by decide))
      | delete => exact .inl rfl
    · exact .inl rfl
  next w previous answer hi => exact .inr (toGo_move hi (show 0 < 1 by decide))
  · exact .inl rfl

theorem toGo_run_le (s : Writers) (schedule : List Nat) : (s.run schedule).toGo ≤ s.toGo := by
  induction schedule generalizing s with
  | nil => exact Nat.le_refl _
  | cons i schedule ih =>
    refine (ih (s.step i)).trans ?_
    rcases s.step_cases i with h | h
    · rw [h]
    · exact h.le

theorem toGo_round {round : List Nat} (hi : i ∈ round) (hstep : (s.step i).toGo < s.toGo) :
    (s.run round).toGo < s.toGo := by
  induction round with
  | nil => cases hi
  | cons j round ih =>
    change ((s.step j).run round).toGo < _
    rcases s.step_cases j with hstay | hless
    · rw [hstay]
      refine ih ((List.mem_cons.1 hi).resolve_left ?_)
      rintro rfl
      rw [hstay] at hstep
      exact absurd hstep (Nat.lt_irrefl _)
    · exact ((s.step j).toGo_run_le round).trans_lt hless

theorem Orderly.exists_step {store : Store} {calls : List Call} {done holder : List Nat}
    (h : Orderly store calls done holder s) (hover : s.isOver = false) :
    ∃ i c stage, s.calls[i]? = some (c, stage) ∧ (s.step i).toGo < s.toGo := by
  obtain ⟨rest, hline, hrest⟩ := h.line
  cases hphase : h.phase with
  | @loaded i path provider outcome now hstage hstore hfree =>
    refine ⟨i, _, _, hstage, ?_⟩
    simp only [Writers.step, hstage, if_pos hfree]
    exact toGo_move hstage (show 1 < 2 by decide)
  | @changing i w previous answer hstage =>
    refine ⟨i, _, _, hstage, ?_⟩
    simp only [Writers.step, hstage]
    exact toGo_move hstage (show 0 < 1 by decide)
  | free hstore hfree =>
    cases rest with
    | cons i rest =>
      obtain ⟨w, hstage⟩ := hrest i List.mem_cons_self
      have hfirst : s.line.head? = some i := congrArg List.head? hline
      refine ⟨i, _, _, hstage, ?_⟩
      simp only [Writers.step, hstage, if_pos (And.intro hfirst hfree)]
      exact toGo_enter hstage
    | nil =>
      obtain ⟨⟨c, stage⟩, hmem, hstage⟩ := List.all_eq_false.1 hover
      obtain ⟨i, hi⟩ := List.mem_iff_getElem?.1 hmem
      refine ⟨i, c, stage, hi, ?_⟩
      cases c with
      | look q =>
        rcases h.looks i q stage hi with rfl | ⟨answer, rfl⟩
        · simp only [Writers.step, hi, if_pos hfree]
          exact toGo_move hi (show 0 < 4 by decide)
        · exact absurd rfl hstage
      | write w =>
        have hout : i ∉ done ++ s.line := by
          rw [hline, List.append_nil, List.append_nil]
          intro hdone
          obtain ⟨w', answer, hi'⟩ := h.isOver_of_done hdone
          cases hi.symm.trans hi'
          exact absurd rfl hstage
        obtain rfl := h.others i w stage hi hout
        simp only [Writers.step, hi]
        exact toGo_move hi (show 3 < 4 by decide)

theorem isOver_iff (s : Writers) : s.isOver = true ↔ s.toGo = 0 := by
  rw [isOver, toGo, List.all_eq_true, List.sum_eq_zero_iff_forall_eq_nat, List.forall_mem_map]
  refine forall₂_congr fun c _ => ?_
  cases c.2 <;> simp [CallStage.isOver, CallStage.toGo]

theorem Orderly.isOver_rounds {store : Store} {calls : List Call} {done holder : List Nat}
    (h : Orderly store calls done holder s) {rounds : Nat} (htoGo : s.toGo ≤ rounds) :
    (s.run (List.replicate rounds (List.range calls.length)).flatten).isOver = true := by
  induction rounds generalizing s done holder with
  | zero => exact s.isOver_iff.2 (Nat.le_zero.1 htoGo)
  | succ rounds ih =>
    rw [List.replicate_succ, List.flatten_cons, Writers.run, List.foldl_append]
    obtain ⟨done', holder', h', -⟩ := h.run (List.range calls.length)
    refine ih h' (Nat.le_of_lt_succ ?_)
    cases hover : s.isOver with
    | true =>
      have hle := s.toGo_run_le (List.range calls.length)
      rw [s.isOver_iff.1 hover] at hle
      exact Nat.lt_succ_of_le (hle.trans (Nat.zero_le _))
    | false =>
      obtain ⟨i, c, stage, hi, hstep⟩ := h.exists_step hover
      have hlength : s.calls.length = calls.length := by rw [← h.made, List.length_map]
      have hmem : i ∈ List.range calls.length :=
        List.mem_range.2 (hlength ▸ (List.getElem?_eq_some_iff.1 hi).1)
      exact (toGo_round hmem hstep).trans_le htoGo

theorem toGo_start (store : Store) (calls : List Call) :
    (start store calls).toGo = 4 * calls.length := by
  rw [toGo, start, List.map_map]
  change (calls.map fun _ => 4).sum = _
  rw [List.map_const', List.sum_replicate_nat, Nat.mul_comm]

namespace Orderly

variable {store : Store} {calls : List Call} {done holder : List Nat}

theorem onePerProvider (h : Orderly store calls done holder s)
    (hone : store.backend.files.OnePerProvider) : s.store.backend.files.OnePerProvider := by
  have hbase := Store.onePerProvider_afterWrites hone (writesAt calls done)
  cases h.phase with
  | free hstore | loaded _ hstore => exact hstore ▸ hbase
  | changing _ _ hfiles => exact hfiles ▸ hbase.apply _

theorem mem_done_of_over (h : Orderly store calls done holder s) {w : Write} {answer : StoreAnswer}
    (hi : s.calls[i]? = some (.write w, .ended answer)) : i ∈ done := by
  by_contra hdone
  by_cases hline : i ∈ s.line
  · obtain ⟨w', stage, hstage, -, hover⟩ := h.stage_of_mem_line hline
    cases hi.symm.trans hstage
    cases hover
  · have hout : i ∉ done ++ s.line := fun hmem => (List.mem_append.1 hmem).elim hdone hline
    cases h.others i w _ hi hout

theorem whole (h : Orderly store calls done holder s) (hover : s.isOver = true) :
    holder = [] ∧ (∀ i w, calls[i]? = some (.write w) → i ∈ done) ∧
      s.store = store.afterWrites (writesAt calls done) := by
  have hstages : ∀ (i : Nat) (c : Call) (stage : CallStage), s.calls[i]? = some (c, stage) →
      stage.isOver = true :=
    fun i c stage hi => List.all_eq_true.1 hover _ (List.mem_of_getElem? hi)
  have hholder : holder = [] := by
    refine List.eq_nil_iff_forall_not_mem.2 fun i hi => ?_
    obtain ⟨w, stage, hstage, -, -, hnot⟩ := h.phase_of_mem hi
    rw [hstages i _ stage hstage] at hnot
    cases hnot
  refine ⟨hholder, fun i w hi => ?_, ?_⟩
  · rw [← h.made, List.getElem?_map, Option.map_eq_some_iff] at hi
    obtain ⟨⟨_, stage⟩, hi, rfl⟩ := hi
    have hend := hstages i _ stage hi
    cases stage with
    | ended answer => exact h.mem_done_of_over hi
    | arriving | waiting | loaded | changing => cases hend
  · subst hholder
    cases h.phase with
    | free hstore => exact hstore

theorem turns (h : Orderly store calls done holder s) :
    (done ++ holder).Nodup ∧ ∀ i ∈ done ++ holder, ∃ w, calls[i]? = some (.write w) := by
  obtain ⟨rest, hline, -⟩ := h.line
  have hdistinct := h.distinct
  rw [hline, ← List.append_assoc] at hdistinct
  refine ⟨(List.nodup_append.1 hdistinct).1, fun i hi => ?_⟩
  rcases List.mem_append.1 hi with hi | hi
  · obtain ⟨w, answer, hstage⟩ := h.isOver_of_done hi
    exact ⟨w, h.made_of_stage hstage⟩
  · obtain ⟨w, stage, hstage, -⟩ := h.phase_of_mem hi
    exact ⟨w, h.made_of_stage hstage⟩

theorem answers (h : Orderly store calls done holder s) {w : Write} {answer : StoreAnswer}
    (hi : s.calls[i]? = some (.write w, .ended answer)) :
    ∃ before after, done ++ holder = before ++ i :: after ∧
      answer = ((store.afterWrites (writesAt calls before)).write w).1 := by
  obtain ⟨before, after, hdone⟩ := List.append_of_mem (h.mem_done_of_over hi)
  obtain ⟨w', hover⟩ := h.ended before i after hdone
  cases hi.symm.trans hover
  exact ⟨before, after ++ holder, by rw [hdone, List.append_assoc]; rfl, rfl⟩

theorem answer_at (h : Orderly store calls done holder s) {before after : List Nat} {w : Write}
    {answer : StoreAnswer} (horder : done ++ holder = before ++ i :: after)
    (hi : s.calls[i]? = some (.write w, .ended answer)) :
    ∃ middle, done = before ++ i :: middle ∧ after = middle ++ holder ∧
      ((store.afterWrites (writesAt calls before)).write w).1 = answer := by
  have hholder : i ∉ holder := by
    intro hmem
    obtain ⟨w, stage, hstage, -, -, hover⟩ := h.phase_of_mem hmem
    cases hi.symm.trans hstage
    cases hover
  obtain ⟨middle, rfl, rfl⟩ : ∃ middle, done = before ++ i :: middle ∧
      after = middle ++ holder := by
    rcases List.append_eq_append_iff.1 horder with ⟨middle, -, hlast⟩ | ⟨middle, hdone, hlast⟩
    · exact absurd (hlast.symm ▸ by simp) hholder
    · cases middle with
      | nil => exact absurd (List.nil_append holder ▸ hlast ▸ List.mem_cons_self) hholder
      | cons j middle =>
        cases hlast
        exact ⟨middle, hdone, rfl⟩
  obtain ⟨w', hover⟩ := h.ended before i middle rfl
  cases hi.symm.trans hover
  exact ⟨middle, rfl, rfl, rfl⟩

theorem record_stays (h : Orderly store calls done holder s) {before after : List Nat}
    {path : String} {provider : Provider} {outcome : FileOutcome} {now : Time} {record : Record}
    (horder : done ++ holder = before ++ i :: after)
    (hi : s.calls[i]? =
      some (.write (.upsert path provider outcome now), .ended (.upserted (.ok record))))
    (hafter : ∀ j ∈ after, ∀ w, calls[j]? = some (.write w) → ¬ w.Overrides path provider) :
    record ∈ s.store.records path := by
  obtain ⟨middle, rfl, rfl, hanswer⟩ := h.answer_at horder hi
  obtain ⟨rfl, hrecord⟩ := Store.mem_records_of_upserted hanswer
  rw [← Store.afterWrites_append, ← writesAt_append (h.made_of_stage hi)] at hrecord
  have hwrites : writesAt calls (before ++ i :: middle) =
      writesAt calls (before ++ [i]) ++ writesAt calls middle := by
    rw [List.append_cons]
    exact List.filterMap_append
  have hbase : record ∈
      (store.afterWrites (writesAt calls (before ++ i :: middle))).records path := by
    rw [hwrites, Store.afterWrites, List.foldl_append]
    refine Store.mem_records_afterWrites hrecord fun w hw => ?_
    obtain ⟨j, hj, hwrite⟩ := mem_writesAt.1 hw
    exact hafter j (List.mem_append_left _ hj) w hwrite
  cases h.phase with
  | free hstore | loaded _ hstore => exact hstore ▸ hbase
  | changing hstage _ hfiles =>
    change record ∈ s.store.backend.files.records path
    rw [hfiles]
    exact Catalog.mem_records_apply hbase (hafter _ (by simp) _ (h.made_of_stage hstage))

end Orderly

/-- Calls that run at once come to writes that run one after another, in the order in which they
    got the store's lock, with the looks between them. -/
structure OneAtATime (store : Store) (calls : List Call) (schedule : List Nat) (s : Writers)
    (order : List Nat) : Prop where
  turns : order.Nodup ∧ ∀ i ∈ order, ∃ w, calls[i]? = some (.write w)
  answers : ∀ (i : Nat) (w : Write) (answer : StoreAnswer),
    s.calls[i]? = some (.write w, .ended answer) → ∃ before after, order = before ++ i :: after ∧
      answer = ((store.afterWrites (writesAt calls before)).write w).1
  whole : s.isOver = true → (∀ i w, calls[i]? = some (.write w) → i ∈ order) ∧
    s.store = store.afterWrites (writesAt calls order)
  /-- A look is answered at a step of its own, from the store that those writes made that were over
      by then. -/
  looks : ∀ (i : Nat) (q : Look) (answer : StoreAnswer),
    s.calls[i]? = some (.look q, .ended answer) → ∃ before after, schedule = before ++ i :: after ∧
      (start store calls).overAfter before <+: order ∧
      answer = (store.afterWrites (writesAt calls ((start store calls).overAfter before))).look q
  distinct : s.store.backend.files.OnePerProvider
  shown : ∀ (i : Nat) (path : String) (records : List Record),
    s.calls[i]? = some (.look (.state path), .ended (.records records)) →
      (records.map (·.provider)).Nodup
  /-- An upsert's record stays as long as no later write deletes its path or is an upsert of the
      same provider on it. -/
  stays : ∀ (before after : List Nat) (i : Nat) (path : String) (provider : Provider)
    (outcome : FileOutcome) (now : Time) (record : Record), order = before ++ i :: after →
      s.calls[i]? =
        some (.write (.upsert path provider outcome now), .ended (.upserted (.ok record))) →
      (∀ j ∈ after, ∀ w, calls[j]? = some (.write w) → ¬ w.Overrides path provider) →
      record ∈ s.store.records path

end Writers

/-- Whichever calls run at once on a store with one record per provider and path, and however their
    steps are interleaved, they come to one write at a time; nobody waits forever. -/
theorem concurrent_calls_come_to_one_write_at_a_time (store : Store) (calls : List Call)
    (schedule : List Nat) (hone : store.backend.files.OnePerProvider) :
    let s := (Writers.start store calls).run schedule
    Writers.OneAtATime store calls schedule s ((Writers.start store calls).turns schedule) ∧
      (s.run (Writers.fairSchedule calls.length)).isOver = true := by
  intro s
  obtain ⟨done, holder, h, hturns⟩ := Writers.orderly_run store calls schedule
  refine ⟨?_, ?_⟩
  · have hlooks := fun i q answer => @Writers.look_answer i store calls schedule q answer
    rw [hturns] at hlooks ⊢
    constructor
    case turns => exact h.turns
    case answers => exact fun i w answer => h.answers
    case whole =>
      intro hover
      obtain ⟨rfl, hwhole⟩ := h.whole hover
      rw [List.append_nil]
      exact hwhole
    case looks => exact hlooks
    case distinct => exact h.onePerProvider hone
    case shown =>
      intro i path records hi
      obtain ⟨before, after, -, -, hanswer⟩ := hlooks i _ _ hi
      cases hanswer
      exact Store.onePerProvider_afterWrites hone _ path
    case stays => exact fun before after i path provider outcome now record => h.record_stays
  · refine h.isOver_rounds ?_
    exact ((Writers.start store calls).toGo_run_le schedule).trans_eq (Writers.toGo_start ..)

/-- Two upserts of one path at once, of which the second cannot be written, and a look that finds
    the first one's record in the middle of being written. -/
theorem concurrent_calls_come_to_one_write_at_a_time_of_two :
    let store : Store :=
      ⟨⟨.empty, some ⟨"state.json", .folder, .absent, [none, some .sync]⟩⟩, ⟨0, 0, 0, 0⟩⟩
    let calls : List Call :=
      [.write (.upsert "/f" .premiumize .missing 5), .look (.state "/f"),
       .write (.upsert "/f" .easynews .missing 6)]
    let schedule := [2, 0, 0, 2, 2, 1, 2, 1, 0, 0, 0]
    let s := (Writers.start store calls).run schedule
    store.backend.files.OnePerProvider ∧
      Writers.OneAtATime store calls schedule s ((Writers.start store calls).turns schedule) ∧
      (Writers.start store calls).turns schedule = [2, 0] ∧
      (s.store.records "/f").map (·.provider) = [.easynews] := by
  intro store calls schedule s
  have hone : store.backend.files.OnePerProvider := fun _ => List.nodup_nil
  have hrun := concurrent_calls_come_to_one_write_at_a_time store calls schedule hone
  exact ⟨hone, hrun.1, by decide +kernel, by decide +kernel⟩

end LinkRelay
