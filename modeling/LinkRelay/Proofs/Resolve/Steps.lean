import LinkRelay.Resolve.Machine
set_option autoImplicit false

/-!
# Tasks step by step

A step of a task is one access to the world. `Machine.Step` lets any task make its next step that
can go on, and time passes when none can, so its runs are all the ways in which tasks interleave.
The machine's own run, which lets a task go on until it has to wait, is one of them.
-/

namespace LinkRelay

inductive Pace where
  | atOnce
  | later (moment : Nat)
  | asleep

structure Move (α : Type) where
  stage : Stage α
  world : World
  woken : List Nat
  pace : Pace

variable {α : Type}

def Plan.move (task : Nat) (w : World) : Plan α → Move α
  | .done a => ⟨.finished a, w, [], .asleep⟩
  | .checkCircuit p k =>
    let (isOpen, breaker) := w.breaker.check p.name w.clock
    ⟨.ready (k isOpen), { w with breaker }, [], .atOnce⟩
  | .openCircuit p ms k =>
    ⟨.ready k, { w with breaker := w.breaker.trip p.name ms w.clock }, [], .atOnce⟩
  | .count s k => ⟨.ready k, w.count s, [], .atOnce⟩
  | .awaitTurn name k =>
    let (window, limiter) := w.limiter.arrive name task
    match { w with limiter }.askWindow window task with
    | (.admitted, next, w) => ⟨.ready (k (.ok 0)), w, next.toList, .atOnce⟩
    | (.neverPossible, next, w) =>
      ⟨.ready (k (.error (.internal (.zeroQuota name)))), w, next.toList, .atOnce⟩
    | (.notBefore t, _, w) => ⟨.atHead window name w.clock k, w, [], .later t⟩
    | (.notFirst, _, w) => ⟨.inLine window name k, w, [], .asleep⟩
  | .place c q k =>
    let (delay, w) := w.place c q
    ⟨.ready (k delay), w, [], .atOnce⟩
  | .receive c q k =>
    let (answer, w) := w.receive c q
    ⟨.ready (k answer), w, [], .atOnce⟩
  | .pause 0 k => ⟨.ready k, w, [], .atOnce⟩
  | .pause (ms + 1) k => ⟨.ready k, w, [], .later (w.clock + (ms + 1))⟩
  | .readClock k =>
    let (now, w) := w.readWall
    ⟨.ready (k now), w, [], .atOnce⟩

namespace Stage

def moveAgain (task window : Nat) (name : String) (since : Nat) (k : Except Failure Nat → Plan α)
    (w : World) : Move α :=
  match w.askWindow window task with
  | (.admitted, next, w) => ⟨.ready (k (.ok (w.clock - since))), w, next.toList, .atOnce⟩
  | (.neverPossible, next, w) =>
    ⟨.ready (k (.error (.internal (.zeroQuota name)))), w, next.toList, .atOnce⟩
  | (.notBefore t, _, w) => ⟨.atHead window name since k, w, [], .later t⟩
  | (.notFirst, _, w) => ⟨.inLine window name k, w, [], .asleep⟩

def move (task : Nat) (w : World) : Stage α → Move α
  | .ready plan => plan.move task w
  | .inLine window name k => moveAgain task window name w.clock k w
  | .atHead window name since k => moveAgain task window name since k w
  | .finished a => ⟨.finished a, w, [], .asleep⟩

def asks? : Stage α → Option Nat
  | .ready (.place client _ _) | .ready (.receive client _ _) => some client
  | _ => none

end Stage

namespace Machine

def moved (m : Machine α) (task : Nat) (move : Move α) : Machine α where
  world := move.world
  stages := m.stages.set task move.stage
  queue := (match move.pace with
    | .atOnce => m.queue
    | .later _ | .asleep => m.queue.erase task) ++ move.woken
  timers := m.timers ++ match move.pace with
    | .later moment => [(moment, task)]
    | .atOnce | .asleep => []
  finishes := match move.stage with
    | .finished a => m.finishes ++ [⟨task, move.world.clock, a⟩]
    | _ => m.finishes

inductive Step : Machine α → Option Nat → Machine α → Prop
  | go {m : Machine α} {task : Nat} {stage : Stage α} (hqueue : task ∈ m.queue)
    (hstage : m.stages[task]? = some stage) (hgoing : stage.isFinished = false) :
    Step m stage.asks? (m.moved task (stage.move task m.world))
  | pass {m : Machine α} {moment : Nat} (hqueue : m.queue = [])
    (hnext : m.nextMoment? = some moment) : Step m none (m.passTo moment)

/-- Steps in any order, with the clients that they ask. -/
inductive Runs : Machine α → List (Option Nat) → Machine α → Prop
  | refl (m : Machine α) : Runs m [] m
  | step {m m' m'' : Machine α} {asked : Option Nat} {rest : List (Option Nat)}
    (hstep : Step m asked m') (hrest : Runs m' rest m'') : Runs m (asked :: rest) m''

theorem Runs.trans {m m' m'' : Machine α} {asked asked' : List (Option Nat)}
    (h : Runs m asked m') (h' : Runs m' asked' m'') : Runs m (asked ++ asked') m'' := by
  induction h with
  | refl => exact h'
  | step hstep _ ih => exact .step hstep (ih h')

def turned (m : Machine α) (task : Nat) (rest : List Nat) (t : Turn α) : Machine α where
  world := t.world
  stages := m.stages.set task t.stage
  queue := rest ++ t.woken
  timers := m.timers ++ (t.wakeAt.map fun moment => (moment, task)).toList
  finishes := match t.stage with
    | .finished a => m.finishes ++ [⟨task, t.world.clock, a⟩]
    | _ => m.finishes

theorem turn_eq_turned {m : Machine α} {task : Nat} {stage : Stage α} (rest : List Nat)
    (hstage : m.stages[task]? = some stage) (hgoing : stage.isFinished = false) :
    ({ m with queue := rest } : Machine α).turn task =
      m.turned task rest (stage.resume task m.world) := by
  rw [turn]
  dsimp only
  rw [hstage]
  dsimp only
  rw [hgoing]
  rfl

/-- A plan whose turn is made of steps, from any machine in which its task is first in the queue. -/
def InSteps (task : Nat) (plan : Plan α) : Prop :=
  ∀ (m : Machine α) (rest woken : List Nat), m.queue = task :: (rest ++ woken) →
    m.stages[task]? = some (.ready plan) →
    ∃ asked others, Runs m (asked :: others) (m.turned task rest (plan.run task m.world woken))

variable {m : Machine α} {task : Nat} {rest woken : List Nat} {stage stage' : Stage α}
variable {plan : Plan α} {w : World} {next : List Nat}

theorem runs_of_atOnce (hqueue : m.queue = task :: (rest ++ woken))
    (hstage : m.stages[task]? = some stage) (hgoing : stage.isFinished = false)
    (hmove : stage.move task m.world = ⟨.ready plan, w, next, .atOnce⟩)
    (hplan : InSteps task plan) :
    ∃ asked others,
      Runs m (asked :: others) (m.turned task rest (plan.run task w (woken ++ next))) := by
  have hfirst := Step.go (hqueue ▸ List.mem_cons_self) hstage hgoing
  rw [hmove] at hfirst
  -- the task is still first in the queue, so its plan can go on from there
  have hqueue' : (m.moved task ⟨.ready plan, w, next, .atOnce⟩).queue =
      task :: (rest ++ (woken ++ next)) := by
    rw [moved, hqueue, List.cons_append, List.append_assoc]
  have hstage' : (m.moved task ⟨.ready plan, w, next, .atOnce⟩).stages[task]? =
      some (.ready plan) := List.getElem?_set_self (List.getElem?_eq_some_iff.1 hstage).1
  obtain ⟨asked, others, hrest⟩ := hplan _ rest (woken ++ next) hqueue' hstage'
  have hturned (t : Turn α) : (m.moved task ⟨.ready plan, w, next, .atOnce⟩).turned task rest t =
      m.turned task rest t := by
    rw [turned, turned, moved, List.set_set, List.append_nil]
  rw [hturned] at hrest
  exact ⟨_, asked :: others, .step hfirst hrest⟩

theorem runs_of_stop (hqueue : m.queue = task :: (rest ++ woken))
    (hstage : m.stages[task]? = some stage) (hgoing : stage.isFinished = false) {pace : Pace}
    {wakeAt : Option Nat} (hmove : stage.move task m.world = ⟨stage', w, [], pace⟩)
    (hpace : pace = .asleep ∧ wakeAt = none ∨ ∃ t, pace = .later t ∧ wakeAt = some t) :
    ∃ asked others, Runs m (asked :: others) (m.turned task rest ⟨stage', w, woken, wakeAt⟩) := by
  have hfirst := Step.go (hqueue ▸ List.mem_cons_self) hstage hgoing
  have hmoved : m.moved task ⟨stage', w, [], pace⟩ =
      m.turned task rest ⟨stage', w, woken, wakeAt⟩ := by
    rcases hpace with ⟨rfl, rfl⟩ | ⟨t, rfl, rfl⟩ <;>
      simp [moved, turned, hqueue]
  rw [hmove, hmoved] at hfirst
  exact ⟨_, [], .step hfirst (.refl _)⟩

theorem inSteps (task : Nat) (plan : Plan α) : InSteps task plan := by
  induction plan with
  | done a => exact fun m rest woken hqueue hstage =>
      runs_of_stop hqueue hstage rfl rfl (.inl ⟨rfl, rfl⟩)
  | checkCircuit p k ih =>
    intro m rest woken hqueue hstage
    have hrest := runs_of_atOnce hqueue hstage rfl rfl (ih _)
    rwa [List.append_nil] at hrest
  | openCircuit p ms k ih =>
    intro m rest woken hqueue hstage
    have hrest := runs_of_atOnce hqueue hstage rfl rfl ih
    rwa [List.append_nil] at hrest
  | count s k ih =>
    intro m rest woken hqueue hstage
    have hrest := runs_of_atOnce hqueue hstage rfl rfl ih
    rwa [List.append_nil] at hrest
  | awaitTurn name k ih =>
    intro m rest woken hqueue hstage
    have hmove : (Stage.ready (.awaitTurn name k)).move task m.world =
        (Plan.awaitTurn name k).move task m.world := rfl
    rw [Plan.run]
    rw [Plan.move] at hmove
    dsimp only at hmove ⊢
    generalize ({ m.world with limiter := (m.world.limiter.arrive name task).2 } : World).askWindow
      (m.world.limiter.arrive name task).1 task = answer at hmove ⊢
    obtain ⟨_ | _ | _ | t, next, w⟩ := answer
    · exact runs_of_stop hqueue hstage rfl hmove (.inl ⟨rfl, rfl⟩)
    · exact runs_of_atOnce hqueue hstage rfl hmove (ih _)
    · exact runs_of_atOnce hqueue hstage rfl hmove (ih _)
    · exact runs_of_stop hqueue hstage rfl hmove (.inr ⟨t, rfl, rfl⟩)
  | place c q k ih =>
    intro m rest woken hqueue hstage
    have hrest := runs_of_atOnce hqueue hstage rfl rfl (ih _)
    rwa [List.append_nil] at hrest
  | receive c q k ih =>
    intro m rest woken hqueue hstage
    have hrest := runs_of_atOnce hqueue hstage rfl rfl (ih _)
    rwa [List.append_nil] at hrest
  | pause ms k ih =>
    intro m rest woken hqueue hstage
    cases ms with
    | zero =>
      have hrest := runs_of_atOnce hqueue hstage rfl rfl ih
      rwa [List.append_nil] at hrest
    | succ ms => exact runs_of_stop hqueue hstage rfl rfl (.inr ⟨_, rfl, rfl⟩)
  | readClock k ih =>
    intro m rest woken hqueue hstage
    have hrest := runs_of_atOnce hqueue hstage rfl rfl (ih _)
    rwa [List.append_nil] at hrest

theorem runs_moveAgain {window since : Nat} {name : String} {k : Except Failure Nat → Plan α}
    (hqueue : m.queue = task :: rest) (hstage : m.stages[task]? = some stage)
    (hgoing : stage.isFinished = false)
    (hmove : stage.move task m.world = Stage.moveAgain task window name since k m.world) :
    ∃ asked others, Runs m (asked :: others)
      (m.turned task rest (Stage.askAgain task window name since k m.world)) := by
  have hqueue' : m.queue = task :: (rest ++ []) := by rw [hqueue, List.append_nil]
  rw [Stage.moveAgain] at hmove
  rw [Stage.askAgain]
  generalize m.world.askWindow window task = answer at hmove ⊢
  obtain ⟨_ | _ | _ | t, next, w⟩ := answer
  · exact runs_of_stop hqueue' hstage hgoing hmove (.inl ⟨rfl, rfl⟩)
  · exact runs_of_atOnce hqueue' hstage hgoing hmove (inSteps task _)
  · exact runs_of_atOnce hqueue' hstage hgoing hmove (inSteps task _)
  · exact runs_of_stop hqueue' hstage hgoing hmove (.inr ⟨t, rfl, rfl⟩)

theorem runs_turn (hqueue : m.queue = task :: rest) (hstage : m.stages[task]? = some stage)
    (hgoing : stage.isFinished = false) :
    ∃ asked others,
      Runs m (asked :: others) (({ m with queue := rest } : Machine α).turn task) := by
  rw [turn_eq_turned rest hstage hgoing]
  cases stage with
  | ready plan => exact inSteps task plan m rest [] (by rw [hqueue, List.append_nil]) hstage
  | inLine window name k => exact runs_moveAgain hqueue hstage hgoing rfl
  | atHead window name since k => exact runs_moveAgain hqueue hstage hgoing rfl
  | finished a => cases hgoing

theorem turn_of_done (h : ∀ stage, m.stages[task]? = some stage → stage.isFinished = true) :
    m.turn task = m := by
  unfold turn
  split
  next => rfl
  next stage hstage => rw [if_pos (h stage hstage)]

theorem run_induction {P : Machine α → Prop}
    (hstep : ∀ {m m' : Machine α} {asked : Option Nat}, P m → Step m asked m' → P m')
    (hskip : ∀ {m : Machine α} {task : Nat} {rest : List Nat}, P m → m.queue = task :: rest →
      (∀ stage, m.stages[task]? = some stage → stage.isFinished = true) →
        P { m with queue := rest })
    (enough : List (Finish α) → Bool) (collects : Bool) (fuel : Nat) (h : P m) :
    P (m.run enough collects fuel).2 := by
  have hruns {m m' : Machine α} {asked : List (Option Nat)} (hrest : Runs m asked m') (h : P m) :
      P m' := by
    induction hrest with
    | refl => exact h
    | step hfirst _ ih => exact ih (hstep h hfirst)
  induction fuel generalizing m with
  | zero => exact h
  | succ fuel ih =>
    rw [run]
    split
    next task rest hqueue =>
      refine ih ?_
      by_cases hdone : ∀ stage, m.stages[task]? = some stage → stage.isFinished = true
      · rw [turn_of_done (m := { m with queue := rest }) hdone]
        exact hskip h hqueue hdone
      · simp only [Classical.not_forall, Bool.not_eq_true] at hdone
        obtain ⟨stage, hstage, hgoing⟩ := hdone
        obtain ⟨asked, others, hturn⟩ := runs_turn hqueue hstage hgoing
        exact hruns hturn h
    next hqueue =>
      split
      · exact h
      · dsimp only
        split
        · exact h
        next moment hnext =>
          split
          · exact h
          · exact ih (hstep h (.pass hqueue hnext))

end Machine

end LinkRelay
