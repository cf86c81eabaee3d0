import LinkRelay.Proofs.Resolve.Foretold
import Mathlib.Algebra.BigOperators.Group.Finset.Piecewise
set_option autoImplicit false

/-!
# Calls that run together

`Foreseen` is the invariant of a machine whose tasks are calls to different providers: every call
is foretold. Each step keeps it and leaves fewer steps to go, so that every run ends, and with the
answers that the calls give alone. A machine can be closed at any step: whoever stands in line then
leaves it.
-/

namespace LinkRelay

open RetryPolicy (AlikeResults)

namespace Machine

variable {α : Type} {m : Machine α} {task moment : Nat}

def pending (m : Machine α) : List (Nat × Nat) :=
  m.queue.map (fun task => (m.world.clock, task)) ++ m.timers

theorem mem_pending_of_queue (h : task ∈ m.queue) : (m.world.clock, task) ∈ m.pending :=
  List.mem_append_left _ (List.mem_map.2 ⟨task, h, rfl⟩)

theorem pending_moved (hqueue : task ∈ m.queue) {move : Move α} (hquiet : move.woken = [])
    (hclock : move.world.clock = m.world.clock) :
    ∃ others, m.pending.Perm ((m.world.clock, task) :: others) ∧
      (m.moved task move).pending.Perm
        ((move.pace.due m.world.clock).toList.map (fun t => (t, task)) ++ others) := by
  let entry (other : Nat) := (m.world.clock, other)
  have hsplit : m.pending.Perm
      (entry task :: ((m.queue.erase task).map entry ++ m.timers)) :=
    ((List.perm_cons_erase hqueue).map entry).append_right m.timers
  refine ⟨_, hsplit, ?_⟩
  rw [pending, moved, hquiet, hclock]
  dsimp only
  cases move.pace with
  | atOnce =>
    rw [List.append_nil, List.append_nil]
    exact hsplit
  | later t =>
    rw [List.append_nil, ← List.append_assoc]
    exact List.perm_append_comm
  | asleep =>
    rw [List.append_nil, List.append_nil]
    exact .refl _

theorem pending_passTo (hqueue : m.queue = []) (hleast : ∀ e ∈ m.timers, moment ≤ e.1)
    (hlater : m.world.clock ≤ moment) : (m.passTo moment).pending.Perm m.pending := by
  have hdue : ((m.timers.filter fun e => e.1 ≤ moment).map (·.2)).map (fun task => (moment, task)) =
      m.timers.filter fun e => e.1 ≤ moment := by
    rw [List.map_map]
    refine (List.map_congr_left fun e he => ?_).trans (List.map_id _)
    obtain ⟨htimer, hless⟩ := List.mem_filter.1 he
    exact Prod.ext (Nat.le_antisymm (hleast e htimer) (of_decide_eq_true hless)) rfl
  have hrest : (m.timers.filter fun e => moment < e.1) =
      m.timers.filter fun e => !decide (e.1 ≤ moment) :=
    List.filter_congr fun e _ => by rw [← decide_not, decide_eq_decide, Nat.not_le]
  rw [pending, pending, passTo, hqueue, Nat.max_eq_right hlater]
  dsimp only
  rw [List.nil_append, hdue, hrest]
  exact List.filter_append_perm _ m.timers

theorem length_timers_passTo (h : ∃ e ∈ m.timers, e.1 = moment) :
    (m.passTo moment).timers.length < m.timers.length := by
  obtain ⟨e, he, rfl⟩ := h
  refine List.length_filter_lt_length_iff_exists.2 ⟨e, he, ?_⟩
  simp only [decide_eq_true_eq, Nat.lt_irrefl, not_false_eq_true]

/-- A machine in which each task has at most one moment at which it can go on, not in the past. -/
structure Scheduled (due : Nat → Option Nat) (m : Machine α) : Prop where
  single : (m.pending.map (·.2)).Nodup
  pending {task moment : Nat} : (moment, task) ∈ m.pending ↔ due task = some moment
  ahead {e : Nat × Nat} (h : e ∈ m.pending) : m.world.clock ≤ e.1

theorem Scheduled.moved {due : Nat → Option Nat} (h : Scheduled due m) (hqueue : task ∈ m.queue)
    {move : Move α} (hquiet : move.woken = []) (hclock : move.world.clock = m.world.clock)
    (hahead : ∀ t, move.pace.due m.world.clock = some t → m.world.clock ≤ t) :
    Scheduled (Function.update due task (move.pace.due m.world.clock)) (m.moved task move) := by
  obtain ⟨others, hbefore, hafter⟩ := pending_moved hqueue hquiet hclock
  have hsingle := (hbefore.map (·.2)).nodup_iff.1 h.single
  rw [List.map_cons, List.nodup_cons] at hsingle
  obtain ⟨hnew, hsingle⟩ := hsingle
  generalize move.pace.due m.world.clock = next at hafter hahead
  refine ⟨?_, fun {other t} => ?_, fun {e} he => ?_⟩
  · rw [(hafter.map (·.2)).nodup_iff]
    cases next with
    | none => exact hsingle
    | some t => exact List.nodup_cons.2 ⟨hnew, hsingle⟩
  · rw [hafter.mem_iff, List.mem_append]
    by_cases hother : other = task
    · subst hother
      have hnot : (t, other) ∉ others := fun hmem => hnew (List.mem_map.2 ⟨_, hmem, rfl⟩)
      rw [Function.update_self]
      simp [hnot]
    · have hkept := hbefore.mem_iff (a := (t, other))
      rw [Function.update_of_ne hother, ← h.pending, hkept]
      simp [hother, Ne.symm hother]
  · change move.world.clock ≤ e.1
    rw [hclock]
    rcases List.mem_append.1 (hafter.mem_iff.1 he) with hmem | hmem
    · obtain ⟨t, ht, rfl⟩ := List.mem_map.1 hmem
      exact hahead t (Option.mem_toList.1 ht)
    · exact h.ahead (hbefore.mem_iff.2 (List.mem_cons_of_mem _ hmem))

theorem Scheduled.passTo {due : Nat → Option Nat} (h : Scheduled due m) (hqueue : m.queue = [])
    (hnext : m.nextMoment? = some moment) :
    Scheduled due (m.passTo moment) ∧ m.world.clock ≤ moment ∧
      (m.passTo moment).timers.length < m.timers.length := by
  obtain ⟨hfirst, hleast⟩ := List.min?_eq_some_iff.1 hnext
  obtain ⟨e, he, rfl⟩ := List.mem_map.1 hfirst
  have hleast' : ∀ e' ∈ m.timers, e.1 ≤ e'.1 := fun e' he' => hleast _ (List.mem_map_of_mem he')
  have hlater := h.ahead (List.mem_append_right _ he)
  have hsame := pending_passTo hqueue hleast' hlater
  refine ⟨⟨(hsame.map (·.2)).nodup_iff.2 h.single, hsame.mem_iff.trans h.pending, ?_⟩, hlater,
    length_timers_passTo ⟨e, he, rfl⟩⟩
  intro e' he'
  have htimer := hsame.mem_iff.1 he'
  rw [Machine.pending, hqueue] at htimer
  exact Nat.max_le.2 ⟨h.ahead (hsame.mem_iff.1 he'), hleast' e' htimer⟩

structure Recorded (m : Machine α) : Prop where
  results {f : Finish α} (h : f ∈ m.finishes) : m.stages[f.task]? = some (.finished f.result)
  listed {task : Nat} {a : α} (h : m.stages[task]? = some (.finished a)) :
    ∃ f ∈ m.finishes, f.task = task

theorem mem_finishes_moved {move : Move α} {f : Finish α} :
    f ∈ (m.moved task move).finishes ↔
      f ∈ m.finishes ∨ ∃ a, move.stage = .finished a ∧ f = ⟨task, move.world.clock, a⟩ := by
  rw [moved]
  cases move.stage <;> simp

theorem Recorded.moved (h : m.Recorded) {stage : Stage α} (hstage : m.stages[task]? = some stage)
    (hgoing : stage.isFinished = false) (move : Move α) : (m.moved task move).Recorded := by
  have hset : (m.stages.set task move.stage)[task]? = some move.stage :=
    List.getElem?_set_self (List.getElem?_eq_some_iff.1 hstage).1
  constructor
  · intro f hf
    rcases mem_finishes_moved.1 hf with hf | ⟨a, ha, rfl⟩
    · have hother : task ≠ f.task := by
        intro htask
        rw [htask, h.results hf] at hstage
        cases hstage
        cases hgoing
      exact (List.getElem?_set_ne hother).trans (h.results hf)
    · exact hset.trans (congrArg some ha)
  · intro other a ha
    change (m.stages.set task move.stage)[other]? = _ at ha
    by_cases hother : task = other
    · subst hother
      rw [hset, Option.some_inj] at ha
      exact ⟨_, mem_finishes_moved.2 (.inr ⟨a, ha, rfl⟩), rfl⟩
    · rw [List.getElem?_set_ne hother] at ha
      obtain ⟨f, hf, hfound⟩ := h.listed ha
      exact ⟨f, mem_finishes_moved.2 (.inl hf), hfound⟩

def toGo (calls : Nat) (left : Nat → Nat) (m : Machine α) : Nat :=
  (∑ task ∈ Finset.range calls, left task) + m.timers.length

theorem toGo_moved {calls : Nat} {left : Nat → Nat} (htask : task < calls) {move : Move α}
    {less : Nat} (hless : less + move.pace.waits < left task) :
    toGo calls (Function.update left task less) (m.moved task move) < toGo calls left m := by
  have hmem := Finset.mem_range.2 htask
  have htimers : (m.moved task move).timers.length = m.timers.length + move.pace.waits := by
    rw [moved]
    cases move.pace <;> simp [Pace.waits]
  rw [toGo, toGo, htimers, Finset.sum_update_of_mem hmem, ← Finset.add_sum_erase _ left hmem,
    Finset.sdiff_singleton_eq_erase]
  omega

end Machine

def World.AllApart (w : World) (calls : List (Nat × Provider)) : Prop :=
  calls.Pairwise fun a b => w.Apart a.2 a.1 b.2 b.1

theorem World.AllApart.of_ne {w : World} {calls : List (Nat × Provider)} (h : w.AllApart calls)
    {i j : Nat} {a b : Nat × Provider} (ha : calls[i]? = some a) (hb : calls[j]? = some b)
    (hne : i ≠ j) : w.Apart a.2 a.1 b.2 b.1 := by
  obtain ⟨hi, rfl⟩ := List.getElem?_eq_some_iff.1 ha
  obtain ⟨hj, rfl⟩ := List.getElem?_eq_some_iff.1 hb
  have hordered := List.pairwise_iff_getElem.1 h
  rcases Nat.lt_or_gt_of_ne hne with hless | hmore
  · exact hordered i j hi hj hless
  · exact (hordered j i hj hi hmore).symm

/-- A machine whose tasks are calls, each by its client and provider, that are all foretold. -/
structure Foreseen (calls : List (Nat × Provider)) (plan : Nat × Provider → Plan CallResult)
    (w : World) (due : Nat → Option Nat) (left : Nat → Nat) (m : Machine CallResult) : Prop extends
    m.Scheduled due, m.Recorded where
  sound : m.world.limiter.Sound
  patient : m.world.deadline = none
  wired (client : Nat) : m.world.wired client = w.wired client
  strangers {client : Nat} (h : ∀ call ∈ calls, call.1 ≠ client) :
    m.world.clients[client]? = w.clients[client]?
  windows {name : String} (h : ∀ call ∈ calls, call.2.name ≠ name) :
    m.world.limiter.present name = w.limiter.present name
  size : m.stages.length = calls.length
  numbers {task moment : Nat} (h : due task = some moment) : task < calls.length
  foretold {task : Nat} {call : Nat × Provider} (h : calls[task]? = some call) :
    ∃ stage, m.stages[task]? = some stage ∧
      Foretold call.2 call.1 task ((plan call).exec w) m.world stage (due task) (left task)

namespace Foretold

variable {p : Provider} {client task left : Nat} {alone : CallResult × World} {w : World}
variable {stage : Stage CallResult} {due : Option Nat}

theorem asks (h : Foretold p client task alone w stage due left) {asked : Nat}
    (hasked : stage.asks? = some asked) : asked = client := by
  cases h with
  | ready hplan => cases hplan <;> cases hasked <;> rfl
  | atHead => cases hasked
  | finished => cases hasked

end Foretold

namespace Foreseen

variable {calls : List (Nat × Provider)} {plan : Nat × Provider → Plan CallResult} {w : World}
variable {due : Nat → Option Nat} {left : Nat → Nat} {m m' : Machine CallResult}
variable {task moment : Nat} {stage : Stage CallResult} {asked : Option Nat}

theorem due_of_queue (h : Foreseen calls plan w due left m) (hqueue : task ∈ m.queue) :
    due task = some m.world.clock :=
  h.pending.1 (Machine.mem_pending_of_queue hqueue)

theorem call_of_queue (h : Foreseen calls plan w due left m) (hqueue : task ∈ m.queue) :
    ∃ call stage, calls[task]? = some call ∧ m.stages[task]? = some stage ∧
      Foretold call.2 call.1 task ((plan call).exec w) m.world stage (some m.world.clock)
        (left task) := by
  have hdue := h.due_of_queue hqueue
  have hcall := List.getElem?_eq_getElem (h.numbers hdue)
  obtain ⟨stage, hstage, hforetold⟩ := h.foretold hcall
  exact ⟨_, stage, hcall, hstage, hdue ▸ hforetold⟩

theorem moved (h : Foreseen calls plan w due left m) (happart : w.AllApart calls)
    (hqueue : task ∈ m.queue) {call : Nat × Provider} (hcall : calls[task]? = some call)
    (hstage : m.stages[task]? = some stage) (hgoing : stage.isFinished = false)
    {move : Move CallResult}
    (hmove : Foretells call.2 call.1 task ((plan call).exec w) m.world (left task) move) :
    ∃ less, less + move.pace.waits < left task ∧
      Foreseen calls plan w (Function.update due task (move.pace.due m.world.clock))
        (Function.update left task less) (m.moved task move) := by
  obtain ⟨less, hless, hforetold⟩ := hmove.foretold
  have hspares := hmove.spares
  have htask : task < calls.length := (List.getElem?_eq_some_iff.1 hcall).1
  refine ⟨less, hless, ⟨h.toScheduled.moved hqueue hmove.quiet hspares.clock fun _ => hmove.ahead,
    h.toRecorded.moved hstage hgoing move, hspares.sound, hspares.deadline.trans h.patient, ?_, ?_,
    ?_, (List.length_set).trans h.size, ?_, ?_⟩⟩
  · exact fun client => (hspares.wired client).trans (h.wired client)
  · intro client hclient
    have hother : client ≠ call.1 := (hclient call (List.mem_of_getElem? hcall)).symm
    exact (hspares.clients hother).trans (h.strangers hclient)
  · intro name hname
    have hother : name ≠ call.2.name := (hname call (List.mem_of_getElem? hcall)).symm
    exact (hspares.windows hother).trans (h.windows hname)
  · intro other t hother
    by_cases hsame : other = task
    · exact hsame ▸ htask
    · rw [Function.update_of_ne hsame] at hother
      exact h.numbers hother
  · intro other call' hcall'
    -- the task that moved has made a step of its own, all others are framed
    by_cases hsame : other = task
    · subst hsame
      obtain rfl : call = call' := Option.some.inj (hcall.symm.trans hcall')
      rw [Function.update_self, Function.update_self]
      exact ⟨_, List.getElem?_set_self (List.getElem?_eq_some_iff.1 hstage).1, hforetold⟩
    · obtain ⟨stage', hstage', hforetold'⟩ := h.foretold hcall'
      obtain ⟨hproviders, hclients, hwires⟩ := happart.of_ne hcall' hcall hsame
      rw [← h.wired, ← h.wired] at hwires
      rw [Function.update_of_ne hsame, Function.update_of_ne hsame]
      exact ⟨stage', (List.getElem?_set_ne (Ne.symm hsame)).trans hstage',
        hforetold'.frame hspares ⟨hproviders, hclients, hwires⟩⟩

theorem passed (h : Foreseen calls plan w due left m) (hqueue : m.queue = [])
    (hnext : m.nextMoment? = some moment) : Foreseen calls plan w due left (m.passTo moment) where
  toScheduled := (h.toScheduled.passTo hqueue hnext).1
  toRecorded := ⟨h.results, h.listed⟩
  sound := h.sound
  patient := h.patient
  wired := h.wired
  strangers := h.strangers
  windows := h.windows
  size := h.size
  numbers := h.numbers
  foretold hcall := by
    obtain ⟨stage, hstage, hforetold⟩ := h.foretold hcall
    exact ⟨stage, hstage, hforetold.atClock _⟩

theorem step (h : Foreseen calls plan w due left m) (happart : w.AllApart calls)
    (hstep : m.Step asked m') :
    (∃ due' left', Foreseen calls plan w due' left' m' ∧
      m'.toGo calls.length left' < m.toGo calls.length left) ∧
    ∀ client, asked = some client → client ∈ calls.map (·.1) := by
  cases hstep with
  | @go task stage hqueue hstage hgoing =>
    obtain ⟨call, stage', hcall, hstage', hforetold⟩ := h.call_of_queue hqueue
    obtain rfl : stage = stage' := Option.some.inj (hstage.symm.trans hstage')
    obtain ⟨less, hless, hmoved⟩ :=
      h.moved happart hqueue hcall hstage hgoing (hforetold.step h.sound rfl)
    have htask : task < calls.length := (List.getElem?_eq_some_iff.1 hcall).1
    refine ⟨⟨_, _, hmoved, Machine.toGo_moved htask hless⟩, fun client hasked => ?_⟩
    rw [hforetold.asks hasked]
    exact List.mem_map_of_mem (List.mem_of_getElem? hcall)
  | @pass moment hqueue hnext =>
    refine ⟨⟨due, left, h.passed hqueue hnext, ?_⟩, nofun⟩
    exact Nat.add_lt_add_left (h.toScheduled.passTo hqueue hnext).2.2 _

theorem runs (h : Foreseen calls plan w due left m) (happart : w.AllApart calls)
    {askeds : List (Option Nat)} (hruns : m.Runs askeds m') :
    (∃ due' left', Foreseen calls plan w due' left' m' ∧
      askeds.length + m'.toGo calls.length left' ≤ m.toGo calls.length left) ∧
    ∀ client, some client ∈ askeds → client ∈ calls.map (·.1) := by
  induction hruns generalizing due left with
  | refl m => exact ⟨⟨due, left, h, Nat.le_of_eq (Nat.zero_add _)⟩, nofun⟩
  | step hstep _ ih =>
    obtain ⟨⟨due', left', h', hless⟩, hasked⟩ := h.step happart hstep
    obtain ⟨⟨due'', left'', h'', hless'⟩, hasked'⟩ := ih h'
    refine ⟨⟨due'', left'', h'', ?_⟩, fun client hclient => ?_⟩
    · rw [List.length_cons]
      omega
    · rcases List.mem_cons.1 hclient with hfirst | hlater
      · exact hasked client hfirst.symm
      · exact hasked' client hlater

theorem pending_of_not_over (h : Foreseen calls plan w due left m) (hover : m.isOver = false) :
    m.pending ≠ [] := by
  obtain ⟨stage, hmem, hgoing⟩ := List.all_eq_false.1 hover
  rw [Bool.not_eq_true] at hgoing
  obtain ⟨task, hstage⟩ := List.mem_iff_getElem?.1 hmem
  have htask : task < calls.length := h.size ▸ (List.getElem?_eq_some_iff.1 hstage).1
  obtain ⟨stage', hstage', hforetold⟩ := h.foretold (List.getElem?_eq_getElem htask)
  obtain rfl : stage = stage' := Option.some.inj (hstage.symm.trans hstage')
  obtain ⟨moment, hdue⟩ := hforetold.due_of_going hgoing
  exact List.ne_nil_of_mem (h.pending.2 hdue)

theorem next_of_idle (h : Foreseen calls plan w due left m) (hover : m.isOver = false)
    (hqueue : m.queue = []) : ∃ moment, m.nextMoment? = some moment := by
  cases hnext : m.nextMoment? with
  | some moment => exact ⟨moment, rfl⟩
  | none =>
    have htimers : m.timers = [] := List.map_eq_nil_iff.1 (List.min?_eq_none_iff.1 hnext)
    exact absurd (by rw [Machine.pending, hqueue, htimers]; rfl) (h.pending_of_not_over hover)

theorem progress (h : Foreseen calls plan w due left m) (hover : m.isOver = false) :
    ∃ asked m', m.Step asked m' := by
  cases hqueue : m.queue with
  | nil =>
    obtain ⟨moment, hnext⟩ := h.next_of_idle hover hqueue
    exact ⟨none, _, .pass hqueue hnext⟩
  | cons task rest =>
    have hfirst : task ∈ m.queue := hqueue ▸ List.mem_cons_self
    obtain ⟨call, stage, -, hstage, hforetold⟩ := h.call_of_queue hfirst
    exact ⟨_, _, .go hfirst hstage hforetold.going_of_due⟩

theorem run_settles (h : Foreseen calls plan w due left m) (happart : w.AllApart calls)
    (enough : List (Finish CallResult) → Bool) (collects : Bool) {fuel : Nat}
    (hfuel : m.toGo calls.length left < fuel) :
    ∃ askeds m', m.Runs askeds m' ∧ (m'.isOver || enough m'.finishes) = true ∧
      m.run enough collects fuel = (.settled, m') := by
  -- a turn makes at least one step, so it costs no more fuel than it leaves fewer steps to go
  induction fuel generalizing m due left with
  | zero => exact absurd hfuel (Nat.not_lt_zero _)
  | succ fuel ih =>
    rw [Machine.run]
    cases hqueue : m.queue with
    | cons task rest =>
      obtain ⟨call, stage, -, hstage, hforetold⟩ := h.call_of_queue (hqueue ▸ List.mem_cons_self)
      obtain ⟨asked, others, hturn⟩ := Machine.runs_turn hqueue hstage hforetold.going_of_due
      obtain ⟨⟨due', left', h', hless⟩, -⟩ := h.runs happart hturn
      rw [List.length_cons] at hless
      obtain ⟨askeds, m', hruns, hend, hrun⟩ := ih h' (by omega)
      exact ⟨_, m', hturn.trans hruns, hend, hrun⟩
    | nil =>
      dsimp only
      cases hend : m.isOver || enough m.finishes with
      | true => exact ⟨[], m, .refl m, hend, rfl⟩
      | false =>
        obtain ⟨moment, hnext⟩ := h.next_of_idle (Bool.or_eq_false_iff.1 hend).1 hqueue
        have hpass : m.toGo calls.length left > (m.passTo moment).toGo calls.length left :=
          Nat.add_lt_add_left (h.toScheduled.passTo hqueue hnext).2.2 _
        obtain ⟨askeds, m', hruns, hend', hrun⟩ := ih (h.passed hqueue hnext) (by omega)
        refine ⟨_, m', .step (.pass hqueue hnext) hruns, hend', ?_⟩
        rw [hnext, h.patient]
        exact hrun

end Foreseen

namespace Machine

theorem close_of_isOver {α : Type} {m : Machine α} (h : m.isOver = true) :
    m.close .settled = m.world := by
  have hdrop (limiter : Limiter) (stages : List (Stage α × Nat))
      (hstages : ∀ e ∈ stages, e.1.isFinished = true) :
      stages.foldl dropTask limiter = limiter := by
    induction stages with
    | nil => rfl
    | cons e rest ih =>
      have hfirst : dropTask limiter e = limiter := by
        have hfinished := hstages e List.mem_cons_self
        obtain ⟨stage, task⟩ := e
        cases stage <;> first | rfl | cases hfinished
      rw [List.foldl_cons, hfirst]
      exact ih fun e he => hstages e (List.mem_cons_of_mem _ he)
  have hfinished : ∀ e ∈ m.stages.zipIdx, e.1.isFinished = true := fun e he =>
    List.all_eq_true.1 h _ (List.mem_of_getElem? (List.mem_zipIdx_iff_getElem?.1 he))
  change { m.world with limiter := m.stages.zipIdx.foldl dropTask m.world.limiter } = m.world
  rw [hdrop _ _ hfinished]

structure Closable {α : Type} (limiter : Limiter) (tasks : List (Stage α × Nat)) : Prop where
  sound : limiter.Sound
  distinct : (tasks.map (·.2)).Nodup
  standing {e : Stage α × Nat} (h : e ∈ tasks) {n : Nat} (hwindow : e.1.window? = some n) :
    ∃ name, limiter.current.get? name = some n ∧ (limiter.present name).Held e.2
  windows (name : String) : (limiter.present name).AtRest ∨
    ∃ e ∈ tasks, ∃ n, e.1.window? = some n ∧ limiter.current.get? name = some n

theorem Closable.dropTask {α : Type} {limiter : Limiter} {e : Stage α × Nat}
    {rest : List (Stage α × Nat)} (h : Closable limiter (e :: rest)) :
    Closable (dropTask limiter e) rest := by
  obtain ⟨hnew, hdistinct⟩ := List.nodup_cons.1 h.distinct
  unfold Machine.dropTask
  cases hwindow : e.1.window? with
  | none =>
    refine ⟨h.sound, hdistinct, fun he => h.standing (List.mem_cons_of_mem _ he), fun name => ?_⟩
    refine (h.windows name).imp_right ?_
    rintro ⟨e', he', n, hwindow', hn⟩
    rcases List.mem_cons.1 he' with rfl | he'
    · rw [hwindow] at hwindow'
      cases hwindow'
    · exact ⟨e', he', n, hwindow', hn⟩
  | some n =>
    obtain ⟨name, hn, hheld⟩ := h.standing List.mem_cons_self hwindow
    have hput := h.sound.put name ((limiter.present name).leave e.2)
    dsimp only
    rw [h.sound.leave_eq hn]
    refine ⟨hput.sound, hdistinct, fun {e'} he' n' hwindow' => ?_, fun name' => ?_⟩
    · obtain ⟨name', hn', hheld'⟩ := h.standing (List.mem_cons_of_mem _ he') hwindow'
      have hother : name' ≠ name := by
        rintro rfl
        have hsame : e.2 = e'.2 := List.singleton_inj.1 (hheld.line.symm.trans hheld'.line)
        exact hnew (List.mem_map.2 ⟨e', he', hsame.symm⟩)
      refine ⟨name', (hput.numbers hother).trans hn', ?_⟩
      rw [hput.others hother]
      exact hheld'
    · by_cases hother : name' = name
      · subst hother
        rw [hput.present_eq]
        exact .inl hheld.leave
      · rw [hput.others hother, hput.numbers hother]
        refine (h.windows name').imp_right ?_
        rintro ⟨e', he', n', hwindow', hn'⟩
        rcases List.mem_cons.1 he' with rfl | he'
        · rw [hwindow, Option.some_inj] at hwindow'
          exact absurd (h.sound.separate hn' (hwindow' ▸ hn)) hother
        · exact ⟨e', he', n', hwindow', hn'⟩

theorem Closable.atRest {α : Type} {limiter : Limiter} {tasks : List (Stage α × Nat)}
    (h : Closable limiter tasks) : (tasks.foldl Machine.dropTask limiter).AtRest := by
  induction tasks generalizing limiter with
  | nil => exact ⟨h.sound, fun name => (h.windows name).resolve_right nofun⟩
  | cons e rest ih => exact ih h.dropTask

end Machine

namespace Foreseen

variable {calls : List (Nat × Provider)} {plan : Nat × Provider → Plan CallResult} {w : World}
variable {due : Nat → Option Nat} {left : Nat → Nat} {m : Machine CallResult}

theorem closable (h : Foreseen calls plan w due left m) (hrest : w.AtRest) :
    Machine.Closable m.world.limiter m.stages.zipIdx := by
  refine ⟨h.sound, ?_, fun {e} he n hwindow => ?_, fun name => ?_⟩
  · rw [List.zipIdx_map_snd]
    exact List.nodup_range'
  · have hstage := List.mem_zipIdx_iff_getElem?.1 he
    have htask : e.2 < calls.length := h.size ▸ (List.getElem?_eq_some_iff.1 hstage).1
    obtain ⟨stage, hstage', hforetold⟩ := h.foretold (List.getElem?_eq_getElem htask)
    obtain rfl : e.1 = stage := Option.some.inj (hstage.symm.trans hstage')
    generalize e.1 = stage, due e.2 = due, left e.2 = left at hwindow hforetold
    cases hforetold with
    | ready | finished => cases hwindow
    | atHead hplan hsees hnumber hheld =>
      cases hwindow
      exact ⟨_, hnumber, hheld⟩
  · by_cases hname : ∃ call ∈ calls, call.2.name = name
    · obtain ⟨call, hcall, rfl⟩ := hname
      obtain ⟨task, hcall⟩ := List.mem_iff_getElem?.1 hcall
      obtain ⟨stage, hstage, hforetold⟩ := h.foretold hcall
      generalize due task = due, left task = left at hforetold
      cases hforetold with
      | ready hplan hagrees hrest' =>
        rw [← hagrees.window]
        exact .inl (hrest'.limiter.resting _)
      | atHead hplan hsees hnumber =>
        exact .inr ⟨(_, task), List.mem_zipIdx_iff_getElem?.2 hstage, _, rfl, hnumber⟩
      | finished halike hagrees =>
        rw [← hagrees.window]
        exact .inl ((Plan.atRest_exec _ hrest).limiter.resting _)
    · rw [h.windows fun call hcall hsame => hname ⟨call, hcall, hsame⟩]
      exact .inl (hrest.limiter.resting name)

theorem atRest_close (h : Foreseen calls plan w due left m) (hrest : w.AtRest) :
    (m.close .settled).AtRest :=
  ⟨(h.closable hrest).atRest, h.patient⟩

end Foreseen
end LinkRelay
