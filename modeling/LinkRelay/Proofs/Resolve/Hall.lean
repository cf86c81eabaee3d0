import LinkRelay.Proofs.Resolve.Lines
import LinkRelay.Proofs.Resolve.SetUp
set_option autoImplicit false

/-!
# Requests that come at any time

A hall is a machine to which callers may come at any moment. Its steps are those of the tasks, in
any order; time may pass at any moment, and what the services answer may change as it likes. In a
hall of a valid configuration everybody is told an outcome, after a bounded number of steps.
-/

namespace LinkRelay

namespace Machine

variable {α : Type} {m : Machine α}

def enter (m : Machine α) (plans : List (Plan α)) : Machine α :=
  { m with
    stages := m.stages ++ plans.map .ready
    queue := m.queue ++ List.range' m.stages.length plans.length }

theorem enter_start (w : World) (plans : List (Plan α)) :
    (start w []).enter plans = start w plans := by
  change Machine.mk w ([] ++ _) ([] ++ List.range' 0 _) [] [] = _
  rw [List.nil_append, List.nil_append, ← List.range_eq_range', start]

theorem stages_enter {plans : List (Plan α)} {task : Nat} {stage : Stage α}
    (h : (m.enter plans).stages[task]? = some stage) :
    m.stages[task]? = some stage ∨
      m.stages.length ≤ task ∧ ∃ plan, plans[task - m.stages.length]? = some plan ∧
        stage = .ready plan := by
  change (m.stages ++ plans.map Stage.ready)[task]? = some stage at h
  by_cases hold : task < m.stages.length
  · rw [List.getElem?_append_left hold] at h
    exact .inl h
  · rw [List.getElem?_append_right (Nat.not_lt.1 hold), List.getElem?_map,
      Option.map_eq_some_iff] at h
    obtain ⟨plan, hplan, rfl⟩ := h
    exact .inr ⟨Nat.not_lt.1 hold, plan, hplan, rfl⟩

theorem Recorded.listed_of_isOver (h : m.Recorded) (hover : m.isOver = true) {task : Nat}
    (htask : task < m.stages.length) : ∃ f ∈ m.finishes, f.task = task := by
  have hfinished := List.all_eq_true.1 hover _ (List.getElem_mem htask)
  have hstage := List.getElem?_eq_getElem htask
  generalize m.stages[task] = stage at hfinished hstage
  cases stage with
  | ready | inLine | atHead => cases hfinished
  | finished a => exact h.listed hstage

theorem Recorded.enter (h : m.Recorded) (plans : List (Plan α)) : (m.enter plans).Recorded where
  results hf := by
    have hstage := h.results hf
    exact (List.getElem?_append_left (List.getElem?_eq_some_iff.1 hstage).1).trans hstage
  listed ha := by
    rcases stages_enter ha with hstage | ⟨-, plan, -, hready⟩
    · exact h.listed hstage
    · cases hready

theorem Within.enter {M : Provider → Manner} {P : Provider → α → Prop}
    {calls calls' : List (Nat × Provider)} {plan : Nat × Provider → Plan α}
    (h : m.Within M P calls)
    (hsuits : ∀ call ∈ calls', m.world.Suits (M call.2) call.2 call.1)
    (hplan : ∀ call ∈ calls', (plan call).Within (M call.2) call.2 call.1 (P call.2)) :
    (m.enter (calls'.map plan)).Within M P (calls ++ calls') where
  size := by
    change (m.stages ++ (calls'.map plan).map Stage.ready).length = _
    rw [List.length_append, List.length_append, List.length_map, List.length_map, h.size]
  sound := h.sound
  suits hcall := (List.mem_append.1 hcall).elim h.suits (hsuits _)
  stages {task call stage} hcall hstage := by
    rcases stages_enter hstage with hstage | ⟨hnew, plan', hplan', rfl⟩
    · have hold := (List.getElem?_eq_some_iff.1 hstage).1
      rw [List.getElem?_append_left (h.size ▸ hold)] at hcall
      exact h.stages hcall hstage
    · rw [h.size] at hnew hplan'
      rw [List.getElem?_append_right hnew] at hcall
      rw [List.getElem?_map, hcall] at hplan'
      cases hplan'
      exact .ready (hplan call (List.mem_of_getElem? hcall))
  finishes hf := by
    obtain ⟨call, hcall, hresult⟩ := h.finishes hf
    exact ⟨call, (List.getElem?_append_left (List.getElem?_eq_some_iff.1 hcall).1).trans hcall,
      hresult⟩

theorem Within.atWorld {M : Provider → Manner} {P : Provider → α → Prop}
    {calls : List (Nat × Provider)} (h : m.Within M P calls) {w : World}
    (hclients : w.clients = m.world.clients) (hlimiter : w.limiter = m.world.limiter) :
    ({ m with world := w } : Machine α).Within M P calls where
  size := h.size
  sound := hlimiter ▸ h.sound
  suits hcall := (h.suits hcall).alike hclients hlimiter
  stages hcall hstage := hlimiter ▸ h.stages hcall hstage
  finishes := h.finishes

def dueEntered (due : Nat → Option Nat) (m : Machine α) (plans : List (Plan α)) :
    Nat → Option Nat :=
  fun task =>
    if m.stages.length ≤ task ∧ task < m.stages.length + plans.length then some m.world.clock
    else due task

section Enter

variable {due : Nat → Option Nat} {left : Nat → Nat} {plans : List (Plan α)} {task : Nat}

theorem dueEntered_of_old (h : task < m.stages.length) : dueEntered due m plans task = due task :=
  if_neg fun hnew => Nat.not_lt.2 hnew.1 h

theorem dueEntered_of_new (h : m.stages.length ≤ task)
    (hlt : task < m.stages.length + plans.length) :
    dueEntered due m plans task = some m.world.clock :=
  if_pos ⟨h, hlt⟩

theorem Attends.enter (h : m.Attends due) (plans : List (Plan α)) :
    (m.enter plans).Attends (dueEntered due m plans) := by
  have hold {task : Nat} (hmem : task ∈ m.waiting) : task < m.stages.length := by
    obtain ⟨moment, hdue⟩ := Option.ne_none_iff_exists'.1 (h.due_of_waiting hmem)
    exact h.numbers hdue
  have hlength : (m.enter plans).stages.length = m.stages.length + plans.length := by
    rw [Machine.enter, List.length_append, List.length_map]
  refine ⟨?_, fun {task} hmem => ?_, fun {e} he => ?_, fun {task moment} hdue => ?_,
    fun {task moment} hdue => ?_⟩
  · have hsplit : (m.enter plans).waiting.Perm
        (m.waiting ++ List.range' m.stages.length plans.length) := by
      rw [waiting, waiting, Machine.enter, List.append_assoc, List.append_assoc]
      exact List.perm_append_comm.append_left m.queue
    rw [hsplit.nodup_iff]
    refine List.nodup_append'.2 ⟨h.single, List.nodup_range', fun task hmem hnew => ?_⟩
    exact Nat.not_lt.2 (List.mem_range'_1.1 hnew).1 (hold hmem)
  · rcases List.mem_append.1 hmem with hmem | hnew
    · rw [dueEntered_of_old (hold (List.mem_append_left _ hmem))]
      exact h.queued hmem
    · obtain ⟨hnew, hlt⟩ := List.mem_range'_1.1 hnew
      exact ⟨_, dueEntered_of_new hnew hlt, Nat.le_refl _⟩
  · rw [dueEntered_of_old (hold (List.mem_append_right _ (List.mem_map_of_mem he)))]
    exact h.timed he
  · by_cases hnew : m.stages.length ≤ task ∧ task < m.stages.length + plans.length
    · exact .inl (List.mem_append_right _ (List.mem_range'_1.2 hnew))
    · rw [dueEntered, if_neg hnew] at hdue
      exact (h.waits hdue).imp_left (List.mem_append_left _)
  · rw [hlength]
    by_cases hnew : m.stages.length ≤ task ∧ task < m.stages.length + plans.length
    · exact hnew.2
    · rw [dueEntered, if_neg hnew] at hdue
      exact Nat.lt_add_right _ (h.numbers hdue)

theorem Orderly.enter {n : Nat} (h : m.Orderly due left) (hplans : ∀ plan ∈ plans, plan.Takes n)
    (hfresh : ∀ task, m.stages.length ≤ task → left task = n + 1) :
    (m.enter plans).Orderly (dueEntered due m plans) left where
  toAttends := h.toAttends.enter plans
  tidy := h.tidy
  stands {task stage} hstage := by
    rcases stages_enter hstage with hstage | ⟨hnew, plan, hplan, rfl⟩
    · rw [dueEntered_of_old (List.getElem?_eq_some_iff.1 hstage).1]
      exact h.stands hstage
    · have hlt := (List.getElem?_eq_some_iff.1 hplan).1
      rw [dueEntered_of_new hnew (by omega), hfresh task hnew]
      exact .ready (hplans plan (List.mem_of_getElem? hplan))
  lined hline := by
    obtain ⟨stage, hstage, hname⟩ := h.lined hline
    exact ⟨stage, (List.getElem?_append_left (List.getElem?_eq_some_iff.1 hstage).1).trans hstage,
      hname⟩

end Enter

end Machine

/-- What a caller can ask for: what every provider of a key has, or what one call comes to. -/
inductive Request where
  | everyone (key : Key)
  | one (call : PolicyCall)

inductive Reply where
  | resolutions (all : List Resolution)
  | outcome (outcome : Outcome)

namespace Request

def clients (w : World) : Request → List (Nat × Provider)
  | .everyone key => w.clientsFor key.kind
  | .one call =>
    ((w.clientOf? call.key call.provider).map fun client => (client, call.provider)).toList

def plan (policy : RetryPolicy) (client : Nat × Provider) : Request → Plan CallResult
  | .everyone key => policy.resolveCall key client
  | .one call => policy.call call.provider (call.attempt client.1)

end Request

namespace Request

variable {policy : RetryPolicy} {w : World} {r : Request} {client : Nat × Provider}

theorem clients_suit (hsetUp : w.SetUp) (h : client ∈ r.clients w) :
    w.Suits Manner.sound client.2 client.1 := by
  cases r with
  | everyone key => exact hsetUp.suits_clientsFor h
  | one call =>
    obtain ⟨n, hn, rfl⟩ := Option.map_eq_some_iff.1 (Option.mem_toList.1 h)
    exact hsetUp.suits_clientsFor (World.clientOf?_mem hn)

def limit (policy : RetryPolicy) : Nat := 19 * (policy.retries + 1) + 1

theorem plan_takes (r : Request) (policy : RetryPolicy) (client : Nat × Provider) :
    (r.plan policy client).Takes (limit policy) := by
  cases r with
  | everyone key =>
    exact RetryPolicy.takes_call ((PolicyCall.resolve key client.2).takes_attempt client.1)
  | one call => exact RetryPolicy.takes_call (call.takes_attempt client.1)

theorem plan_within (policy : RetryPolicy) (h : client ∈ r.clients w) :
    (r.plan policy client).Within Manner.sound client.2 client.1 Succeeds := by
  cases r with
  | everyone key => exact (PolicyCall.resolve key client.2).within_sound policy client.1
  | one call =>
    obtain ⟨n, -, rfl⟩ := Option.map_eq_some_iff.1 (Option.mem_toList.1 h)
    exact call.within_sound policy n

end Request

structure Posted where
  request : Request
  clients : List (Nat × Provider)
  first : Nat

namespace Posted

def ownOf (p : Posted) (all : List (Finish CallResult)) : List (Finish CallResult) :=
  all.filterMap fun f =>
    if p.first ≤ f.task ∧ f.task < p.first + p.clients.length then
      some { f with task := f.task - p.first }
    else none

def hasAll (p : Posted) (own : List (Finish CallResult)) : Bool :=
  (List.range p.clients.length).all fun task => own.any fun f => f.task == task

def reply? (p : Posted) (all : List (Finish CallResult)) : Option (Except Failure Reply) :=
  let own := p.ownOf all
  match p.request with
  | .everyone _ =>
    if p.hasAll own || (firstFailure? own).isSome then
      some ((answerOf p.clients own).map .resolutions)
    else none
  | .one _ =>
    if p.clients.isEmpty then some (.ok (.outcome .notCached))
    else own.head?.map fun f => f.result.map .outcome

variable {p : Posted} {all : List (Finish CallResult)} {f : Finish CallResult}

theorem mem_ownOf : f ∈ p.ownOf all ↔ ∃ f' ∈ all,
    (p.first ≤ f'.task ∧ f'.task < p.first + p.clients.length) ∧
      f = { f' with task := f'.task - p.first } := by
  rw [ownOf, List.mem_filterMap]
  refine exists_congr fun f' => and_congr_right fun _ => ?_
  by_cases hown : p.first ≤ f'.task ∧ f'.task < p.first + p.clients.length
  · rw [if_pos hown, Option.some_inj]
    exact ⟨fun h => ⟨hown, h.symm⟩, fun h => h.2.symm⟩
  · rw [if_neg hown]
    exact ⟨nofun, fun h => absurd h.1 hown⟩

theorem reply_ok (hall : ∀ f ∈ all, Succeeds f.result) {answer : Except Failure Reply}
    (h : p.reply? all = some answer) : ∃ reply, answer = .ok reply := by
  have hown : ∀ f ∈ p.ownOf all, Succeeds f.result := by
    intro f hf
    obtain ⟨f', hf', -, rfl⟩ := mem_ownOf.1 hf
    exact hall f' hf'
  unfold reply? at h
  dsimp only at h
  split at h
  · split at h
    · rw [answerOf, firstFailure?_of_ok hown] at h
      exact ⟨_, (Option.some.inj h).symm⟩
    · cases h
  · split at h
    · exact ⟨_, (Option.some.inj h).symm⟩
    · obtain ⟨f, hf, rfl⟩ := Option.map_eq_some_iff.1 h
      obtain ⟨outcome, hok⟩ := hown f (List.mem_of_head? hf)
      rw [hok]
      exact ⟨_, rfl⟩

theorem exists_reply (h : ∀ task, p.first ≤ task → task < p.first + p.clients.length →
    ∃ f ∈ all, f.task = task) : ∃ answer, p.reply? all = some answer := by
  have hown (task : Nat) (htask : task < p.clients.length) : ∃ f ∈ p.ownOf all, f.task = task := by
    obtain ⟨f, hf, hsame⟩ := h (p.first + task) (by omega) (by omega)
    exact ⟨_, mem_ownOf.2 ⟨f, hf, by omega, rfl⟩, by dsimp only; omega⟩
  unfold reply?
  dsimp only
  split
  · have hall : p.hasAll (p.ownOf all) = true := by
      refine List.all_eq_true.2 fun task htask => List.any_eq_true.2 ?_
      obtain ⟨f, hf, hsame⟩ := hown task (List.mem_range.1 htask)
      exact ⟨f, hf, beq_iff_eq.2 hsame⟩
    rw [hall, Bool.true_or, if_pos rfl]
    exact ⟨_, rfl⟩
  · cases hclients : p.clients with
    | nil => exact ⟨_, rfl⟩
    | cons client rest =>
      obtain ⟨f, hf, -⟩ := hown 0 (by rw [hclients]; exact Nat.succ_pos _)
      obtain ⟨first, others, hcons⟩ := List.exists_cons_of_ne_nil (List.ne_nil_of_mem hf)
      rw [hcons]
      exact ⟨_, rfl⟩

end Posted

structure Hall where
  machine : Machine CallResult
  posted : List Posted

namespace Hall

def opened (w : World) : Hall := ⟨.start w [], []⟩

def calls (h : Hall) : List (Nat × Provider) := h.posted.flatMap (·.clients)

def enter (policy : RetryPolicy) (h : Hall) (r : Request) : Hall :=
  let clients := r.clients h.machine.world
  { machine := h.machine.enter (clients.map (r.plan policy ·))
    posted := h.posted ++ [⟨r, clients, h.machine.stages.length⟩] }

/-- A step in a hall, with the task that makes it, if one does. -/
inductive Step (policy : RetryPolicy) (h : Hall) : Option Nat → Hall → Prop
  | enter (r : Request) : Step policy h none (h.enter policy r)
  | go {task : Nat} {stage : Stage CallResult} (hqueue : task ∈ h.machine.queue)
    (hstage : h.machine.stages[task]? = some stage) (hgoing : stage.isFinished = false) :
    Step policy h (some task)
      { h with machine := h.machine.moved task (stage.move task h.machine.world) }
  | pass (moment : Nat) : Step policy h none { h with machine := h.machine.passTo moment }
  /-- The services answer otherwise from now on, and other parts of the program do their work. -/
  | outside (breaker : Breaker) (metrics : Metrics) (calendar : Nat → Time) (wire : Http.Wire)
    (store : Store) :
    Step policy h none
      { h with machine := { h.machine with
        world := { h.machine.world with breaker, metrics, calendar, wire, store } } }

inductive Run (policy : RetryPolicy) (h : Hall) : List (Option Nat) → Hall → Prop
  | refl : Run policy h [] h
  | step {h' h'' : Hall} {movers : List (Option Nat)} {mover : Option Nat}
    (hrun : Run policy h movers h') (hstep : Step policy h' mover h'') :
    Run policy h (mover :: movers) h''

/-- What holds in a hall whose tasks have made some steps. -/
structure Serves (policy : RetryPolicy) (movers : List (Option Nat)) (h : Hall) : Prop where
  succeeds {p : Posted} (hp : p ∈ h.posted) {answer : Except Failure Reply}
    (hanswer : p.reply? h.machine.finishes = some answer) : ∃ reply, answer = .ok reply
  bounded (task : Nat) : movers.count (some task) ≤ policy.turnsFor 1
  answered (hqueue : h.machine.queue = []) (htimers : h.machine.timers = []) {p : Posted}
    (hp : p ∈ h.posted) : ∃ reply, p.reply? h.machine.finishes = some (.ok reply)
  quota {c : Client} (hc : c ∈ h.machine.world.clients) :
    0 < (h.machine.world.limiter.present c.provider.name).limit.quota
  links {s : Easynews} (hs : .easynews s ∈ h.machine.world.clients) (file : CachedFile) :
    FailsOnly (Easynews.IsMissing file) (s.downloadLink file)

/-- The invariant of a hall that is set up from a valid configuration. -/
structure Kept (policy : RetryPolicy) (movers : List (Option Nat)) (due : Nat → Option Nat)
    (left : Nat → Nat) (h : Hall) : Prop where
  within : h.machine.Within (fun _ => .sound) (fun _ => Succeeds) h.calls
  setUp : h.machine.world.SetUp
  recorded : h.machine.Recorded
  orderly : h.machine.Orderly due left
  bounded (task : Nat) : movers.count (some task) + left task ≤ Request.limit policy + 1
  fresh {task : Nat} (hnew : h.machine.stages.length ≤ task) : left task = Request.limit policy + 1
  numbers {p : Posted} (hp : p ∈ h.posted) :
    p.first + p.clients.length ≤ h.machine.stages.length

variable {policy : RetryPolicy} {movers : List (Option Nat)} {due : Nat → Option Nat}
variable {left : Nat → Nat} {h h' : Hall} {mover : Option Nat} {w : World}

theorem kept_opened (policy : RetryPolicy) (hsetUp : w.SetUp) (hrest : w.limiter.AtRest) :
    (opened w).Kept policy [] (fun _ => none) (fun _ => Request.limit policy + 1) where
  within := ⟨rfl, hsetUp.sound, nofun, nofun, nofun⟩
  setUp := hsetUp
  recorded := ⟨nofun, nofun⟩
  orderly :=
    { single := List.nodup_nil
      queued := nofun
      timed := nofun
      waits := nofun
      numbers := nofun
      tidy := hrest.tidy
      stands := nofun
      lined := fun hline => by
        rw [show (opened w).machine.world = w from rfl, (hrest.resting _).idle] at hline
        cases hline }
  bounded _ := Nat.le_of_eq (Nat.zero_add _)
  fresh _ := rfl
  numbers := nofun

theorem Kept.enter (hkept : h.Kept policy movers due left) (r : Request) :
    ∃ due', (h.enter policy r).Kept policy (none :: movers) due' left := by
  have hsuits : ∀ client ∈ r.clients h.machine.world,
      h.machine.world.Suits Manner.sound client.2 client.1 := fun client hclient =>
    r.clients_suit hkept.setUp hclient
  have htakes : ∀ plan ∈ (r.clients h.machine.world).map (r.plan policy ·),
      plan.Takes (Request.limit policy) := by
    intro plan hplan
    obtain ⟨client, -, rfl⟩ := List.mem_map.1 hplan
    exact r.plan_takes policy client
  have hcalls : (h.enter policy r).calls = h.calls ++ r.clients h.machine.world := by
    rw [calls, Hall.enter, List.flatMap_append, List.flatMap_singleton]
    rfl
  have hlength : (h.enter policy r).machine.stages.length =
      h.machine.stages.length + (r.clients h.machine.world).length := by
    rw [Hall.enter, Machine.enter, List.length_append, List.length_map, List.length_map]
  refine ⟨_, ?_, hkept.setUp, hkept.recorded.enter _, hkept.orderly.enter htakes ?_, ?_, ?_, ?_⟩
  · rw [hcalls]
    exact hkept.within.enter hsuits fun client hclient => r.plan_within policy hclient
  · exact fun task hnew => hkept.fresh hnew
  · intro task
    rw [List.count_cons_of_ne (Option.some_ne_none task).symm]
    exact hkept.bounded task
  · intro task hnew
    rw [hlength] at hnew
    exact hkept.fresh (Nat.le_of_add_right_le hnew)
  · intro p hp
    rw [hlength]
    rcases List.mem_append.1 hp with hp | hp
    · exact Nat.le_add_right_of_le (hkept.numbers hp)
    · rw [List.mem_singleton.1 hp]

theorem Kept.go (hkept : h.Kept policy movers due left) {task : Nat} {stage : Stage CallResult}
    (hqueue : task ∈ h.machine.queue) (hstage : h.machine.stages[task]? = some stage)
    (hgoing : stage.isFinished = false) :
    ∃ due' left', ({ h with machine := h.machine.moved task (stage.move task h.machine.world) } :
      Hall).Kept policy (some task :: movers) due' left' := by
  obtain ⟨call, hcall, htouched, -⟩ := hkept.within.keeps hstage
  have hsuits := hkept.within.suits (List.mem_of_getElem? hcall)
  obtain ⟨moment, hdue, hmoment⟩ := hkept.orderly.queued hqueue
  have hstands := hkept.orderly.stands hstage
  rw [hdue] at hstands
  have honly : ∀ name, task ∈ (h.machine.world.limiter.present name).line →
      stage.name? = some name := by
    intro name hline
    obtain ⟨stage', hstage', hname⟩ := hkept.orderly.lined hline
    obtain rfl : stage = stage' := Option.some.inj (hstage.symm.trans hstage')
    exact hname
  have horders := hstands.orders (hkept.within.stages hcall hstage) hkept.orderly.tidy
    hsuits.quota hmoment honly
  obtain ⟨less, hless, hmoved⟩ := hkept.orderly.moved hqueue hstage horders
  have hlength : (h.machine.moved task (stage.move task h.machine.world)).stages.length =
      h.machine.stages.length := List.length_set
  refine ⟨_, _, hkept.within.moved hstage, hkept.setUp.touched htouched,
    hkept.recorded.moved hstage hgoing _, hmoved, fun other => ?_, fun {other} hnew => ?_,
    fun hp => hlength.symm ▸ hkept.numbers hp⟩
  · have hbounded := hkept.bounded other
    by_cases hother : other = task
    · subst hother
      rw [Function.update_self, List.count_cons_self]
      omega
    · rw [Function.update_of_ne hother, List.count_cons_of_ne fun hsame =>
        hother (Option.some.inj hsame).symm]
      exact hbounded
  · dsimp only at hnew
    rw [hlength] at hnew
    have htask := (List.getElem?_eq_some_iff.1 hstage).1
    rw [Function.update_of_ne (by omega)]
    exact hkept.fresh hnew

theorem Kept.aside (hkept : h.Kept policy movers due left) {m : Machine CallResult}
    (hwithin : m.Within (fun _ => .sound) (fun _ => Succeeds) h.calls) (hsetUp : m.world.SetUp)
    (hrecorded : m.Recorded) (horderly : m.Orderly due left)
    (hstages : m.stages.length = h.machine.stages.length) :
    ({ h with machine := m } : Hall).Kept policy (none :: movers) due left where
  within := hwithin
  setUp := hsetUp
  recorded := hrecorded
  orderly := horderly
  bounded task := by
    rw [List.count_cons_of_ne (Option.some_ne_none task).symm]
    exact hkept.bounded task
  fresh hnew := hkept.fresh (hstages ▸ hnew)
  numbers hp := hstages ▸ hkept.numbers hp

theorem Kept.step (hkept : h.Kept policy movers due left) (hstep : Step policy h mover h') :
    ∃ due' left', h'.Kept policy (mover :: movers) due' left' := by
  have hrecorded := hkept.recorded
  cases hstep with
  | enter r =>
    obtain ⟨due', hentered⟩ := hkept.enter r
    exact ⟨due', left, hentered⟩
  | go hqueue hstage hgoing => exact hkept.go hqueue hstage hgoing
  | pass moment =>
    exact ⟨due, left, hkept.aside (hkept.within.passTo moment) (hkept.setUp.alike rfl rfl)
      ⟨hrecorded.results, hrecorded.listed⟩ (hkept.orderly.passTo moment) rfl⟩
  | outside breaker metrics calendar wire store =>
    exact ⟨due, left, hkept.aside (hkept.within.atWorld rfl rfl) (hkept.setUp.alike rfl rfl)
      ⟨hrecorded.results, hrecorded.listed⟩ (hkept.orderly.atWorld rfl rfl) rfl⟩

theorem Kept.results (hkept : h.Kept policy movers due left) :
    ∀ f ∈ h.machine.finishes, Succeeds f.result := fun _ hf =>
  (hkept.within.finishes hf).choose_spec.2

theorem Kept.exists_reply (hkept : h.Kept policy movers due left)
    (hover : h.machine.isOver = true) {p : Posted} (hp : p ∈ h.posted) :
    ∃ answer, p.reply? h.machine.finishes = some answer :=
  Posted.exists_reply fun _ _ hlt =>
    hkept.recorded.listed_of_isOver hover (Nat.lt_of_lt_of_le hlt (hkept.numbers hp))

theorem Kept.serves (hkept : h.Kept policy movers due left) : h.Serves policy movers where
  succeeds _ _ hanswer := Posted.reply_ok hkept.results hanswer
  bounded task := by
    have hbounded := hkept.bounded task
    rw [Request.limit] at hbounded
    rw [RetryPolicy.turnsFor]
    omega
  answered hqueue htimers _ hp := by
    obtain ⟨answer, hanswer⟩ := hkept.exists_reply (hkept.orderly.isOver hqueue htimers) hp
    obtain ⟨reply, rfl⟩ := Posted.reply_ok hkept.results hanswer
    exact ⟨reply, hanswer⟩
  quota hc := hkept.setUp.quota hc
  links hs file := Easynews.downloadLink_failsOnly (hkept.setUp.client hs) file

theorem Kept.run {h₀ : Hall} {due₀ : Nat → Option Nat} {left₀ : Nat → Nat}
    (hstart : h₀.Kept policy [] due₀ left₀) (hrun : Run policy h₀ movers h) :
    ∃ due left, h.Kept policy movers due left := by
  induction hrun with
  | refl => exact ⟨_, _, hstart⟩
  | step _ hstep ih =>
    obtain ⟨due, left, hkept⟩ := ih
    exact hkept.step hstep

end Hall

end LinkRelay
