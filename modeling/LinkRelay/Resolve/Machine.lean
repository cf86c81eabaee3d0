import LinkRelay.Resolve.Plan
set_option autoImplicit false

/-!
# The machine that carries out plans

Several plans run as tasks of one world. A task goes on until it has to wait: for its turn at a
limiter's window, for the moment it can be admitted, or for a pause to end. Tasks that can go on
are taken in the order in which they were woken; when none can, the clock jumps to the earliest
moment that a task waits for.
-/

namespace LinkRelay

inductive Stage (α : Type) where
  | ready (plan : Plan α)
  | inLine (window : Nat) (name : String) (k : Except Failure Nat → Plan α)
  | atHead (window : Nat) (name : String) (since : Nat) (k : Except Failure Nat → Plan α)
  | finished (result : α)

/-- What a task leaves behind when it stops to wait: the tasks it woke, and the moment it waits
    for, if it waits for one. -/
structure Turn (α : Type) where
  stage : Stage α
  world : World
  woken : List Nat
  wakeAt : Option Nat

namespace World

variable {α : Type}

def place (w : World) (client : Nat) (q : Question) : Nat × World :=
  match w.clients[client]? with
  | some c => (c.delay, { w with clients := w.clients.set client (c.noted q) })
  | none => (0, w)

def receive (w : World) (client : Nat) (q : Question) : Except Failure q.Answer × World :=
  match w.clients[client]? with
  | some c =>
    let (answer, c, wire) := c.answer w.calendar w.wire q
    (answer, { w.later (q.readings answer) with clients := w.clients.set client c, wire })
  | none => (.error (.internal (.told "no such client")), w)

def askWindow (w : World) (window task : Nat) : Admission × Option Nat × World :=
  let (answer, next, limiter) := w.limiter.ask window task w.clock
  (answer, next, { w with limiter })

end World

namespace Plan

variable {α : Type}

def run (task : Nat) : Plan α → World → List Nat → Turn α
  | .done a, w, woken => ⟨.finished a, w, woken, none⟩
  | .checkCircuit p k, w, woken =>
    let (isOpen, breaker) := w.breaker.check p.name w.clock
    (k isOpen).run task { w with breaker } woken
  | .openCircuit p ms k, w, woken =>
    k.run task { w with breaker := w.breaker.trip p.name ms w.clock } woken
  | .count s k, w, woken => k.run task (w.count s) woken
  | .awaitTurn name k, w, woken =>
    let (window, limiter) := w.limiter.arrive name task
    match { w with limiter }.askWindow window task with
    | (.admitted, next, w) => (k (.ok 0)).run task w (woken ++ next.toList)
    | (.neverPossible, next, w) =>
      (k (.error (.internal (.zeroQuota name)))).run task w (woken ++ next.toList)
    | (.notBefore t, _, w) => ⟨.atHead window name w.clock k, w, woken, some t⟩
    | (.notFirst, _, w) => ⟨.inLine window name k, w, woken, none⟩
  | .place c q k, w, woken =>
    let (delay, w) := w.place c q
    (k delay).run task w woken
  | .receive c q k, w, woken =>
    let (answer, w) := w.receive c q
    (k answer).run task w woken
  | .pause 0 k, w, woken => k.run task w woken
  | .pause (ms + 1) k, w, woken => ⟨.ready k, w, woken, some (w.clock + (ms + 1))⟩
  | .readClock k, w, woken =>
    let (now, w) := w.readWall
    (k now).run task w woken

end Plan

namespace Stage

variable {α : Type}

def askAgain (task window : Nat) (name : String) (since : Nat) (k : Except Failure Nat → Plan α)
    (w : World) : Turn α :=
  match w.askWindow window task with
  | (.admitted, next, w) => (k (.ok (w.clock - since))).run task w next.toList
  | (.neverPossible, next, w) =>
    (k (.error (.internal (.zeroQuota name)))).run task w next.toList
  | (.notBefore t, _, w) => ⟨.atHead window name since k, w, [], some t⟩
  | (.notFirst, _, w) => ⟨.inLine window name k, w, [], none⟩

/-- Lets a task go on. The time it is held back counts from when it got to the head of the line. -/
def resume (task : Nat) (w : World) : Stage α → Turn α
  | .ready plan => plan.run task w []
  | .inLine window name k => askAgain task window name w.clock k w
  | .atHead window name since k => askAgain task window name since k w
  | .finished a => ⟨.finished a, w, [], none⟩

def isFinished : Stage α → Bool
  | .finished _ => true
  | _ => false

def window? : Stage α → Option Nat
  | .inLine window .. | .atHead window .. => some window
  | _ => none

end Stage

structure Finish (α : Type) where
  task : Nat
  moment : Nat
  result : α

structure Machine (α : Type) where
  world : World
  stages : List (Stage α)
  queue : List Nat
  timers : List (Nat × Nat)
  finishes : List (Finish α)

namespace Machine

variable {α : Type}

def start (w : World) (plans : List (Plan α)) : Machine α :=
  ⟨w, plans.map .ready, List.range plans.length, [], []⟩

def turn (m : Machine α) (task : Nat) : Machine α :=
  match m.stages[task]? with
  | none => m
  | some stage =>
    if stage.isFinished then m
    else
      let t := stage.resume task m.world
      { world := t.world
        stages := m.stages.set task t.stage
        queue := m.queue ++ t.woken
        timers := m.timers ++ (t.wakeAt.map fun moment => (moment, task)).toList
        finishes := match t.stage with
          | .finished a => m.finishes ++ [⟨task, t.world.clock, a⟩]
          | _ => m.finishes }

def isOver (m : Machine α) : Bool := m.stages.all (·.isFinished)

def nextMoment? (m : Machine α) : Option Nat := (m.timers.map (·.1)).min?

/-- The clock moves on to a moment, and the tasks that wait for it can go on. -/
def passTo (m : Machine α) (moment : Nat) : Machine α :=
  { m with
    world := { m.world with clock := max m.world.clock moment }
    queue := m.queue ++ (m.timers.filter fun t => t.1 ≤ moment).map (·.2)
    timers := m.timers.filter fun t => moment < t.1 }

/-- How a run ends: with its results, or because nobody waits for them any more. -/
inductive Ending where
  | settled
  | abandoned
  deriving DecidableEq

/-- Whether the run's caller has stopped waiting before a moment. A caller that only collects the
    results of others stops at its deadline, one that takes part itself just after it. -/
def isTooLate (deadline : Option Nat) (collects : Bool) (moment : Nat) : Bool :=
  deadline.any fun d => d < moment || (collects && d == moment)

def run (enough : List (Finish α) → Bool) (collects : Bool) : Nat → Machine α → Ending × Machine α
  | 0, m => (.settled, m)
  | fuel + 1, m =>
    match m.queue with
    | task :: rest => run enough collects fuel ({ m with queue := rest }.turn task)
    | [] =>
      if m.isOver || enough m.finishes then (.settled, m)
      else
        let deadline := m.world.deadline
        match m.nextMoment? with
        | none => ((if deadline.isSome then .abandoned else .settled), m)
        | some moment =>
          if isTooLate deadline collects moment then (.abandoned, m)
          else run enough collects fuel (m.passTo moment)

def dropTask (limiter : Limiter) (e : Stage α × Nat) : Limiter :=
  match e.1.window? with
  | some window => (limiter.leave window e.2).2
  | none => limiter

/-- The world after a run, without the tasks that are not finished. -/
def close (m : Machine α) (ending : Ending) : World :=
  let w := { m.world with limiter := m.stages.zipIdx.foldl dropTask m.world.limiter }
  match ending, w.deadline with
  | .abandoned, some d => { w with clock := max w.clock d }
  | _, _ => w

end Machine

namespace World

variable {α : Type}

def runAll (w : World) (plans : List (Plan α)) (enough : List (Finish α) → Bool) (fuel : Nat) :
    Option (List (Finish α)) × World :=
  if !plans.isEmpty && w.deadline.any (· ≤ w.clock) then (none, w)
  else
    match (Machine.start w plans).run enough true fuel with
    | (.settled, m) => (some m.finishes, m.close .settled)
    | (.abandoned, m) => (none, m.close .abandoned)

def runOne (w : World) (plan : Plan α) (fuel : Nat) : Option α × World :=
  match (Machine.start w [plan]).run (fun _ => false) false fuel with
  | (.settled, m) => (m.finishes.head?.map (·.result), m.close .settled)
  | (.abandoned, m) => (none, m.close .abandoned)

end World
end LinkRelay
