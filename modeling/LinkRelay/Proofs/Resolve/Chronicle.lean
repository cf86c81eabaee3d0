import LinkRelay.Proofs.Resolve.Sessions
set_option autoImplicit false

/-!
# What the tasks of a hall do

A chronicle is a hall with a log of all accesses that its tasks make. Tasks may be dropped in it at
any moment, as those are whose caller does not wait for them any more. The trace of a task is a path
through its plan, so a rule that every path of a plan keeps to is kept to by every task that carries
it out, in whatever order tasks make their steps.
-/

namespace LinkRelay

inductive Access where
  | checked (p : Provider) (isOpen : Bool)
  | tripped (p : Provider) (ms : Nat)
  | counted (s : Series)
  | admitted (name : String)
  | refused (name : String)
  | asked (client : Nat) (q : Question)
  | answered (client : Nat) (q : Question) (answer : Except Failure q.Answer)
  | paused (ms : Nat)
  | dated (now : Time)

def Access.ofAdmission? (name : String) : Admission → Option Access
  | .admitted => some (.admitted name)
  | .neverPossible => some (.refused name)
  | .notBefore _ | .notFirst => none

section Accesses

variable {α : Type}

def Plan.access? (task : Nat) (w : World) : Plan α → Option Access
  | .done _ => none
  | .checkCircuit p _ => some (.checked p (w.breaker.check p.name w.clock).1)
  | .openCircuit p ms _ => some (.tripped p ms)
  | .count s _ => some (.counted s)
  | .awaitTurn name _ =>
    let (window, limiter) := w.limiter.arrive name task
    Access.ofAdmission? name ({ w with limiter }.askWindow window task).1
  | .place c q _ => some (.asked c q)
  | .receive c q _ => some (.answered c q (w.receive c q).1)
  | .pause ms _ => some (.paused ms)
  | .readClock _ => some (.dated w.readWall.1)

def Stage.access? (task : Nat) (w : World) : Stage α → Option Access
  | .ready plan => plan.access? task w
  | .inLine window name _ | .atHead window name _ _ =>
    Access.ofAdmission? name (w.askWindow window task).1
  | .finished _ => none

end Accesses

/-- What a task may do next, after its trace so far, the latest access first. -/
abbrev Rule := List Access → Access → Prop

def Rule.Allows (rule : Rule) : List Access → Prop
  | [] => True
  | access :: earlier => rule earlier access ∧ rule.Allows earlier

theorem Rule.Allows.at {rule : Rule} {later earlier : List Access} {access : Access}
    (h : rule.Allows (later ++ access :: earlier)) : rule earlier access := by
  induction later with
  | nil => exact h.1
  | cons last later ih => exact ih h.2

/-- A plan whose task has made a trace so far. Whatever it is told, its further accesses keep to a
    rule, and its result goes with its trace. -/
inductive Plan.Follows {α : Type} (rule : Rule) (P : List Access → α → Prop) :
    List Access → Plan α → Prop
  | done {trace : List Access} {a : α} (h : P trace a) : Follows rule P trace (.done a)
  | checkCircuit {trace : List Access} {p : Provider} {k : Bool → Plan α}
    (h : ∀ isOpen, rule trace (.checked p isOpen))
    (hk : ∀ isOpen, Follows rule P (.checked p isOpen :: trace) (k isOpen)) :
    Follows rule P trace (.checkCircuit p k)
  | openCircuit {trace : List Access} {p : Provider} {ms : Nat} {k : Plan α}
    (h : rule trace (.tripped p ms)) (hk : Follows rule P (.tripped p ms :: trace) k) :
    Follows rule P trace (.openCircuit p ms k)
  | count {trace : List Access} {s : Series} {k : Plan α} (h : rule trace (.counted s))
    (hk : Follows rule P (.counted s :: trace) k) : Follows rule P trace (.count s k)
  | awaitTurn {trace : List Access} {name : String} {k : Except Failure Nat → Plan α}
    (hadmitted : rule trace (.admitted name)) (hrefused : rule trace (.refused name))
    (hk : ∀ waited, Follows rule P (.admitted name :: trace) (k (.ok waited)))
    (hk' : Follows rule P (.refused name :: trace) (k (.error (.internal (.zeroQuota name))))) :
    Follows rule P trace (.awaitTurn name k)
  | place {trace : List Access} {client : Nat} {q : Question} {k : Nat → Plan α}
    (h : rule trace (.asked client q))
    (hk : ∀ delay, Follows rule P (.asked client q :: trace) (k delay)) :
    Follows rule P trace (.place client q k)
  | receive {trace : List Access} {client : Nat} {q : Question}
    {k : Except Failure q.Answer → Plan α} (h : ∀ a, rule trace (.answered client q a))
    (hk : ∀ a, Follows rule P (.answered client q a :: trace) (k a)) :
    Follows rule P trace (.receive client q k)
  | pause {trace : List Access} {ms : Nat} {k : Plan α} (h : rule trace (.paused ms))
    (hk : Follows rule P (.paused ms :: trace) k) : Follows rule P trace (.pause ms k)
  | readClock {trace : List Access} {k : Time → Plan α} (h : ∀ now, rule trace (.dated now))
    (hk : ∀ now, Follows rule P (.dated now :: trace) (k now)) :
    Follows rule P trace (.readClock k)

inductive Stage.Follows {α : Type} (rule : Rule) (P : List Access → α → Prop)
    (trace : List Access) : Stage α → Prop
  | ready {plan : Plan α} (h : plan.Follows rule P trace) : Follows rule P trace (.ready plan)
  | inLine {window : Nat} {name : String} {k : Except Failure Nat → Plan α}
    (h : (Plan.awaitTurn name k).Follows rule P trace) :
    Follows rule P trace (.inLine window name k)
  | atHead {window since : Nat} {name : String} {k : Except Failure Nat → Plan α}
    (h : (Plan.awaitTurn name k).Follows rule P trace) :
    Follows rule P trace (.atHead window name since k)
  | finished {a : α} (h : P trace a) : Follows rule P trace (.finished a)

section Follows

variable {α β : Type} {rule : Rule} {P : List Access → α → Prop} {Q : List Access → β → Prop}
variable {trace : List Access} {plan : Plan α} {stage : Stage α}

theorem Plan.Follows.bind {f : α → Plan β} (h : plan.Follows rule P trace)
    (hf : ∀ trace a, P trace a → (f a).Follows rule Q trace) :
    (plan.bind f).Follows rule Q trace := by
  induction h with
  | done h => exact hf _ _ h
  | checkCircuit h _ ih => exact .checkCircuit h ih
  | openCircuit h _ ih => exact .openCircuit h ih
  | count h _ ih => exact .count h ih
  | awaitTurn hadmitted hrefused _ _ ih ih' => exact .awaitTurn hadmitted hrefused ih ih'
  | place h _ ih => exact .place h ih
  | receive h _ ih => exact .receive h ih
  | pause h _ ih => exact .pause h ih
  | readClock h _ ih => exact .readClock h ih

/-- A step of a task that has made a trace: its access is allowed, and the task goes on keeping to
    the rule. -/
structure Stage.Abides (rule : Rule) (P : List Access → α → Prop) (trace : List Access)
    (access : Option Access) (stage : Stage α) : Prop where
  allows (h : rule.Allows trace) : rule.Allows (access.toList ++ trace)
  follows : stage.Follows rule P (access.toList ++ trace)

namespace Stage.Abides

theorem one {access : Access} (h : rule trace access)
    (hplan : plan.Follows rule P (access :: trace)) :
    Abides rule P trace (some access) (.ready plan) :=
  ⟨fun htrace => ⟨h, htrace⟩, .ready hplan⟩

theorem asked {name : String} {k : Except Failure Nat → Plan α}
    (h : (Plan.awaitTurn name k).Follows rule P trace) (waited since : World → Nat) (window : Nat)
    (answer : Admission × Option Nat × World) :
    Abides rule P trace (Access.ofAdmission? name answer.1)
      (match answer with
        | (.admitted, next, w) => (⟨.ready (k (.ok (waited w))), w, next.toList, .atOnce⟩ : Move α)
        | (.neverPossible, next, w) =>
          ⟨.ready (k (.error (.internal (.zeroQuota name)))), w, next.toList, .atOnce⟩
        | (.notBefore t, _, w) => ⟨.atHead window name (since w) k, w, [], .later t⟩
        | (.notFirst, _, w) => ⟨.inLine window name k, w, [], .asleep⟩).stage := by
  obtain ⟨_ | _ | _ | t, next, w⟩ := answer
  · exact ⟨id, .inLine h⟩
  · cases h with
    | awaitTurn _ hrefused _ hk' => exact one hrefused hk'
  · cases h with
    | awaitTurn hadmitted _ hk _ => exact one hadmitted (hk _)
  · exact ⟨id, .atHead h⟩

end Stage.Abides

theorem Plan.Follows.abides (h : plan.Follows rule P trace) (task : Nat) (w : World) :
    Stage.Abides rule P trace (plan.access? task w) (plan.move task w).stage := by
  cases h with
  | done h => exact ⟨id, .finished h⟩
  | checkCircuit h hk => exact .one (h _) (hk _)
  | openCircuit h hk => exact .one h hk
  | count h hk => exact .one h hk
  | awaitTurn hadmitted hrefused hk hk' =>
    exact .asked (.awaitTurn hadmitted hrefused hk hk') (fun _ => 0) World.clock _ _
  | place h hk => exact .one h (hk _)
  | receive h hk => exact .one (h _) (hk _)
  | @pause _ ms _ h hk => cases ms <;> exact .one h hk
  | readClock h hk => exact .one (h _) (hk _)

theorem Stage.Follows.abides (h : stage.Follows rule P trace) (task : Nat) (w : World) :
    Abides rule P trace (stage.access? task w) (stage.move task w).stage := by
  cases h with
  | ready h => exact h.abides task w
  | inLine h => exact .asked h (fun w' => w'.clock - w.clock) (fun _ => w.clock) _ _
  | @atHead _ since _ _ h => exact .asked h (fun w' => w'.clock - since) (fun _ => since) _ _
  | finished h => exact ⟨id, .finished h⟩

end Follows

def Access.isAside : Access → Bool
  | .asked .. | .admitted _ => false
  | _ => true

/-- What the attempts of a call have to respect, so that the whole call keeps to a rule: before each
    of them something holds, and a result that goes with a trace goes with it also when the policy
    has done its part. -/
structure Rule.Conducts (rule : Rule) (p : Provider) (I : List Access → Prop)
    (P : List Access → CallResult → Prop) : Prop where
  aside {trace : List Access} (access : Access) (h : I trace) (haside : access.isAside = true) :
    rule trace access ∧ I (access :: trace)
  kept {trace : List Access} (access : Access) {r : CallResult} (h : P trace r)
    (haside : access.isAside = true) : P (access :: trace) r
  between {trace : List Access} {r : CallResult} (h : P trace r) : I trace
  conceded {trace : List Access} {f : Failure} (h : P trace (.error f)) :
    P trace (.ok (.ofFailure f))
  skipped : P [.checked p true] (.ok .notCached)
  begun : I []

namespace RetryPolicy

variable {policy : RetryPolicy} {rule : Rule} {p : Provider} {I : List Access → Prop}
variable {P : List Access → CallResult → Prop} {attempt : Attempt Outcome} {trace : List Access}

theorem follows_settled (h : rule.Conducts p I P) (s : Series) {r : CallResult} (hr : P trace r) :
    (Plan.count s (.done r)).Follows rule P trace :=
  .count (h.aside _ (h.between hr) rfl).1 (.done (h.kept _ hr rfl))

theorem follows_concede (policy : RetryPolicy) (h : rule.Conducts p I P) {f : Failure}
    (hf : P trace (.error f)) : (policy.concede p f).Follows rule P trace := by
  have hconceded := h.conceded hf
  unfold concede
  dsimp only
  split
  · have htripped := h.kept (.tripped p policy.cooldownMs) hconceded rfl
    exact .openCircuit (h.aside _ (h.between hconceded) rfl).1
      (.count (h.aside _ (h.between htripped) rfl).1
        (follows_settled h _ (h.kept _ htripped rfl)))
  · exact follows_settled h _ hconceded

theorem follows_settle (h : rule.Conducts p I P) {again : Failure → Plan CallResult}
    (hagain : ∀ f, P trace (.error f) → (again f).Follows rule P trace) {r : CallResult}
    (hr : P trace r) : (policy.settle p again r).Follows rule P trace := by
  cases r with
  | ok outcome => exact follows_settled h _ hr
  | error f =>
    rw [settle]
    split
    · exact .done hr
    · split
      · exact hagain f hr
      · exact follows_concede policy h hr

theorem follows_attempts (h : rule.Conducts p I P)
    (hattempt : ∀ trace, I trace → attempt.run.Follows rule P trace) (left : Nat)
    (hI : I trace) : (policy.attempts p attempt left).Follows rule P trace := by
  induction left generalizing trace with
  | zero =>
    exact (hattempt trace hI).bind fun trace r hr =>
      follows_settle h (fun f hf => follows_concede policy h hf) hr
  | succ left ih =>
    refine (hattempt trace hI).bind fun trace r hr => follows_settle h (fun f hf => ?_) hr
    obtain ⟨hretried, hI⟩ := h.aside (.counted (.retried p)) (h.between hf) rfl
    obtain ⟨hpaused, hI⟩ := h.aside (.paused policy.delayMs) hI rfl
    exact .count hretried (.pause hpaused (ih hI))

theorem follows_call (policy : RetryPolicy) (h : rule.Conducts p I P)
    (hattempt : ∀ trace, I trace → attempt.run.Follows rule P trace) :
    (policy.call p attempt).Follows rule P [] := by
  refine .checkCircuit (fun _ => (h.aside _ h.begun rfl).1) fun isOpen => ?_
  obtain ⟨-, hI⟩ := h.aside (.checked p isOpen) h.begun rfl
  cases isOpen with
  | true => exact .count (h.aside _ hI rfl).1 (follows_settled h _ (h.kept _ h.skipped rfl))
  | false => exact follows_attempts h hattempt policy.retries hI

end RetryPolicy

theorem Attempt.follows_bind {α β : Type} {rule : Rule} {trace : List Access}
    {P : List Access → Except Failure α → Prop} {Q : List Access → Except Failure β → Prop}
    {x : Attempt α} {f : α → Attempt β} (hx : x.run.Follows rule P trace)
    (hok : ∀ trace a, P trace (.ok a) → (f a).run.Follows rule Q trace)
    (herror : ∀ trace f, P trace (.error f) → Q trace (.error f)) :
    (x >>= f).run.Follows rule Q trace := by
  refine Plan.Follows.bind hx fun trace r hr => ?_
  cases r with
  | ok a => exact hok trace a hr
  | error f => exact .done (herror trace f hr)

structure Note where
  task : Nat
  moment : Nat
  access : Access

namespace Note

def accessOf? (task : Nat) (n : Note) : Option Access :=
  if n.task = task then some n.access else none

def admission? (name : String) (n : Note) : Option Nat :=
  match n.access with
  | .admitted other => if other = name then some n.moment else none
  | _ => none

end Note

structure Chronicle where
  hall : Hall
  gone : List Nat
  log : List Note

def Hall.tasks (h : Hall) : List (Request × Nat × Provider) :=
  h.posted.flatMap fun p => p.clients.map (p.request, ·)

namespace Chronicle

def opened (w : World) : Chronicle := ⟨.opened w, [], []⟩

def trace (c : Chronicle) (task : Nat) : List Access :=
  (c.log.filterMap (·.accessOf? task)).reverse

def admissions (c : Chronicle) (name : String) : List Nat := c.log.filterMap (·.admission? name)

def go (c : Chronicle) (task : Nat) (stage : Stage CallResult) : Chronicle :=
  let w := c.hall.machine.world
  { hall := { c.hall with machine := c.hall.machine.moved task (stage.move task w) }
    gone := c.gone
    log := c.log ++ ((stage.access? task w).map fun access => ⟨task, w.clock, access⟩).toList }

def atMachine (c : Chronicle) (m : Machine CallResult) : Chronicle :=
  { c with hall := { c.hall with machine := m } }

/-- A task that is dropped leaves the line it stands in, and wakes the first of the others. -/
def drop (c : Chronicle) (task : Nat) (stage : Stage CallResult) : Chronicle :=
  match stage.window? with
  | none => { c with gone := task :: c.gone }
  | some window =>
    let m := c.hall.machine
    let (next, limiter) := m.world.limiter.leave window task
    { hall := { c.hall with
        machine := { m with world := { m.world with limiter }, queue := m.queue ++ next.toList } }
      gone := task :: c.gone
      log := c.log }

inductive Step (policy : RetryPolicy) (c : Chronicle) : Chronicle → Prop
  | go {task : Nat} {stage : Stage CallResult} (hqueue : task ∈ c.hall.machine.queue)
    (hstage : c.hall.machine.stages[task]? = some stage) (hgoing : stage.isFinished = false)
    (hhere : task ∉ c.gone) : Step policy c (c.go task stage)
  | drop {task : Nat} {stage : Stage CallResult}
    (hstage : c.hall.machine.stages[task]? = some stage) : Step policy c (c.drop task stage)
  | skip {task : Nat} {rest : List Nat} (hqueue : c.hall.machine.queue = task :: rest)
    (hdone : ∀ stage, c.hall.machine.stages[task]? = some stage → stage.isFinished = true) :
    Step policy c (c.atMachine { c.hall.machine with queue := rest })
  /-- Somebody enters, time passes, or something happens outside. -/
  | other {h : Hall} (hstep : c.hall.Step policy none h) : Step policy c { c with hall := h }

inductive Run (policy : RetryPolicy) (c : Chronicle) : Chronicle → Prop
  | refl : Run policy c c
  | step {c' c'' : Chronicle} (hrun : Run policy c c') (hstep : Step policy c' c'') :
    Run policy c c''

variable {policy : RetryPolicy} {c c' : Chronicle} {task other : Nat} {stage : Stage CallResult}

theorem exists_run {w : World} {movers : List (Option Nat)} {h : Hall}
    (hrun : (Hall.opened w).Run policy movers h) :
    ∃ c, (opened w).Run policy c ∧ c.hall = h ∧ c.gone = [] := by
  induction hrun with
  | refl => exact ⟨_, .refl, rfl, rfl⟩
  | @step h' h'' _ mover _ hstep ih =>
    obtain ⟨c, hc, rfl, hgone⟩ := ih
    cases mover with
    | none => exact ⟨_, hc.step (.other hstep), rfl, hgone⟩
    | some task =>
      cases hstep with
      | go hqueue hstage hgoing =>
        exact ⟨_, hc.step (.go hqueue hstage hgoing (hgone ▸ List.not_mem_nil)), rfl, hgone⟩

/-- What the machine does by itself can be written down, whenever its callers stop waiting. -/
theorem run_of_machine {w : World} (enough : List (Finish CallResult) → Bool) (collects : Bool)
    (fuel : Nat) (hrun : (opened w).Run policy c) (hgone : c.gone = []) :
    ∃ c', (opened w).Run policy c' ∧ c'.gone = [] ∧
      c'.hall = { c.hall with machine := (c.hall.machine.run enough collects fuel).2 } := by
  refine Machine.run_induction (P := fun m => ∃ c', (opened w).Run policy c' ∧ c'.gone = [] ∧
    c'.hall = { c.hall with machine := m }) (fun h hstep => ?_) (fun h hqueue hdone => ?_)
    enough collects fuel ⟨c, hrun, hgone, rfl⟩
  · obtain ⟨⟨hall, gone, log⟩, hrun, rfl, rfl⟩ := h
    cases hstep with
    | go hqueue hstage hgoing =>
      exact ⟨_, hrun.step (.go hqueue hstage hgoing List.not_mem_nil), rfl, rfl⟩
    | pass hqueue hnext => exact ⟨_, hrun.step (.other (.pass _)), rfl, rfl⟩
  · obtain ⟨⟨hall, gone, log⟩, hrun, rfl, rfl⟩ := h
    exact ⟨_, hrun.step (.skip hqueue hdone), rfl, rfl⟩

theorem run_of_session (policy : RetryPolicy) (w : World) (r : Request)
    (enough : List (Finish CallResult) → Bool) (collects : Bool) (fuel : Nat) :
    ∃ c, (opened w).Run policy c ∧ c.hall = ⟨((Machine.start w ((r.clients w).map
      (r.plan policy ·))).run enough collects fuel).2, [r.alone w]⟩ := by
  have hentered : (opened w).Run policy { opened w with hall := (Hall.opened w).enter policy r } :=
    .step .refl (.other (.enter r))
  obtain ⟨c, hrun, -, hhall⟩ := run_of_machine enough collects fuel hentered rfl
  refine ⟨c, hrun, hhall.trans ?_⟩
  rw [Hall.machine_enter_opened]
  rfl

theorem trace_go_self : (c.go task stage).trace task =
    (stage.access? task c.hall.machine.world).toList ++ c.trace task := by
  rw [trace, go]
  cases stage.access? task c.hall.machine.world with
  | none => rw [Option.map_none, Option.toList_none, List.append_nil]; rfl
  | some access =>
    rw [Option.map_some, Option.toList_some, List.filterMap_append, List.reverse_append]
    simp [Note.accessOf?, trace]

theorem trace_go_of_ne (h : other ≠ task) : (c.go task stage).trace other = c.trace other := by
  rw [trace, go]
  cases stage.access? task c.hall.machine.world with
  | none => rw [Option.map_none, Option.toList_none, List.append_nil]; rfl
  | some access => simp [Note.accessOf?, trace, h.symm]

theorem trace_of_new (h : ∀ n ∈ c.log, n.task ≠ task) : c.trace task = [] := by
  have hnone : c.log.filterMap (·.accessOf? task) = [] :=
    List.filterMap_eq_nil_iff.2 fun n hn => if_neg (h n hn)
  rw [trace, hnone, List.reverse_nil]

theorem drop_hall (c : Chronicle) (task : Nat) (stage : Stage CallResult) :
    (c.drop task stage).hall.posted = c.hall.posted ∧
      (c.drop task stage).hall.machine.stages = c.hall.machine.stages ∧
      (c.drop task stage).hall.machine.finishes = c.hall.machine.finishes ∧
      (c.drop task stage).log = c.log ∧ (c.drop task stage).gone = task :: c.gone := by
  unfold drop
  split <;> exact ⟨rfl, rfl, rfl, rfl, rfl⟩

variable {rule : Request → Nat × Provider → Rule}
variable {P : Request → Nat × Provider → List Access → CallResult → Prop}

structure Follows (rule : Request → Nat × Provider → Rule)
    (P : Request → Nat × Provider → List Access → CallResult → Prop) (c : Chronicle) : Prop where
  size : c.hall.machine.stages.length = c.hall.tasks.length
  known {n : Note} (h : n ∈ c.log) : n.task < c.hall.machine.stages.length
  recorded : c.hall.machine.Recorded
  allows {task : Nat} {r : Request} {client : Nat × Provider}
    (h : c.hall.tasks[task]? = some (r, client)) : (rule r client).Allows (c.trace task)
  stages {task : Nat} {r : Request} {client : Nat × Provider} {stage : Stage CallResult}
    (h : c.hall.tasks[task]? = some (r, client))
    (hstage : c.hall.machine.stages[task]? = some stage) :
    stage.Follows (rule r client) (P r client) (c.trace task)

namespace Follows

theorem opened (w : World) : (opened w).Follows rule P :=
  ⟨rfl, nofun, ⟨nofun, nofun⟩, nofun, nofun⟩

theorem alike (h : c.Follows rule P) (hposted : c'.hall.posted = c.hall.posted)
    (hstages : c'.hall.machine.stages = c.hall.machine.stages)
    (hfinishes : c'.hall.machine.finishes = c.hall.machine.finishes) (hlog : c'.log = c.log) :
    c'.Follows rule P := by
  have htasks : c'.hall.tasks = c.hall.tasks := by rw [Hall.tasks, hposted, Hall.tasks]
  have htrace (task : Nat) : c'.trace task = c.trace task := by rw [trace, hlog, trace]
  obtain ⟨hsize, hknown, ⟨hresults, hlisted⟩, hallows, hfollows⟩ := h
  refine ⟨?_, ?_, ⟨?_, ?_⟩, ?_, ?_⟩ <;> simp only [hstages, hfinishes, hlog, htasks, htrace]
  · exact hsize
  · exact hknown
  · exact hresults
  · exact hlisted
  · exact hallows
  · exact hfollows

theorem go (h : c.Follows rule P) (hstage : c.hall.machine.stages[task]? = some stage)
    (hgoing : stage.isFinished = false) : (c.go task stage).Follows rule P := by
  have htask := (List.getElem?_eq_some_iff.1 hstage).1
  have hlength : (c.go task stage).hall.machine.stages.length =
      c.hall.machine.stages.length := List.length_set
  refine ⟨hlength.trans h.size, fun {n} hn => ?_, h.recorded.moved hstage hgoing _, ?_, ?_⟩
  · rw [hlength]
    rcases List.mem_append.1 hn with hn | hn
    · exact h.known hn
    · obtain ⟨access, -, rfl⟩ := Option.map_eq_some_iff.1 (Option.mem_toList.1 hn)
      exact htask
  · intro other r client hcall
    by_cases hother : other = task
    · subst hother
      rw [trace_go_self]
      exact ((h.stages hcall hstage).abides other _).allows (h.allows hcall)
    · rw [trace_go_of_ne hother]
      exact h.allows hcall
  · intro other stage' r client hcall hstage'
    change (c.hall.machine.stages.set task _)[other]? = _ at hstage'
    by_cases hother : other = task
    · subst hother
      rw [List.getElem?_set_self htask, Option.some_inj] at hstage'
      rw [trace_go_self, ← hstage']
      exact ((h.stages hcall hstage).abides other _).follows
    · rw [List.getElem?_set_ne (Ne.symm hother)] at hstage'
      rw [trace_go_of_ne hother]
      exact h.stages hcall hstage'

theorem enter (h : c.Follows rule P) (r : Request)
    (hplan : ∀ client ∈ r.clients c.hall.machine.world,
      (r.plan policy client).Follows (rule r client) (P r client) []) :
    ({ c with hall := c.hall.enter policy r } : Chronicle).Follows rule P := by
  let clients := r.clients c.hall.machine.world
  have htasks : (c.hall.enter policy r).tasks = c.hall.tasks ++ clients.map (r, ·) := by
    rw [Hall.tasks, Hall.enter, List.flatMap_append, List.flatMap_singleton]
    rfl
  have hlength : (c.hall.enter policy r).machine.stages.length =
      c.hall.machine.stages.length + clients.length := by
    rw [Hall.enter, Machine.enter, List.length_append, List.length_map, List.length_map]
  have htrace (task : Nat) :
      Chronicle.trace { c with hall := c.hall.enter policy r } task = c.trace task := rfl
  have hnew (task : Nat) (htask : c.hall.machine.stages.length ≤ task) : c.trace task = [] :=
    trace_of_new fun n hn => Nat.ne_of_lt (Nat.lt_of_lt_of_le (h.known hn) htask)
  refine ⟨?_, fun hn => ?_, h.recorded.enter _, ?_, ?_⟩
  · rw [hlength, h.size, htasks, List.length_append, List.length_map]
  · rw [hlength]
    exact Nat.lt_add_right _ (h.known hn)
  · intro task r' client hcall
    rw [htasks] at hcall
    by_cases hold : task < c.hall.tasks.length
    · rw [List.getElem?_append_left hold] at hcall
      exact h.allows hcall
    · rw [htrace, hnew task (h.size ▸ Nat.not_lt.1 hold)]
      exact trivial
  · intro task stage r' client hcall hstage
    rw [htasks] at hcall
    rcases Machine.stages_enter hstage with hstage | ⟨hle, plan, hplan', rfl⟩
    · have hold := (List.getElem?_eq_some_iff.1 hstage).1
      rw [List.getElem?_append_left (h.size ▸ hold)] at hcall
      exact h.stages hcall hstage
    · rw [List.getElem?_append_right (h.size ▸ hle), List.getElem?_map, ← h.size] at hcall
      rw [List.getElem?_map] at hplan'
      obtain ⟨client', hclient, heq⟩ := Option.map_eq_some_iff.1 hcall
      cases heq
      rw [show (r.clients c.hall.machine.world)[_]? = _ from hclient] at hplan'
      cases hplan'
      rw [htrace, hnew task hle]
      exact .ready (hplan _ (List.mem_of_getElem? hclient))

theorem step (hplan : ∀ (w : World) (r : Request), ∀ client ∈ r.clients w,
      (r.plan policy client).Follows (rule r client) (P r client) [])
    (h : c.Follows rule P) (hstep : c.Step policy c') : c'.Follows rule P := by
  cases hstep with
  | go _ hstage hgoing _ => exact h.go hstage hgoing
  | @drop task stage hstage =>
    obtain ⟨hposted, hstages, hfinishes, hlog, -⟩ := c.drop_hall task stage
    exact h.alike hposted hstages hfinishes hlog
  | skip => exact h.alike rfl rfl rfl rfl
  | other hstep =>
    cases hstep with
    | enter r => exact h.enter r (hplan _ r)
    | pass | outside => exact h.alike rfl rfl rfl rfl

theorem run (hplan : ∀ (w : World) (r : Request), ∀ client ∈ r.clients w,
      (r.plan policy client).Follows (rule r client) (P r client) [])
    {w : World} (hrun : (Chronicle.opened w).Run policy c) : c.Follows rule P := by
  induction hrun with
  | refl => exact opened w
  | step _ hstep ih => exact ih.step hplan hstep

end Follows

end Chronicle

end LinkRelay
