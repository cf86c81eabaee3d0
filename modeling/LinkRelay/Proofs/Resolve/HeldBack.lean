import LinkRelay.Proofs.Resolve.Stays
set_option autoImplicit false

/-!
# Calls that are held back

A call counts a wait when it is told that it waited, before it does anything else. So the counter
of a provider's waits has every call that waited at the head of a line, and none that was let in as
soon as it got there, however long it stood behind others.
-/

namespace LinkRelay

/-- A plan that counts a wait next, if it owes one, and otherwise just after it was told that it
    waited. -/
inductive Plan.Tallies {α : Type} : Option Provider → Plan α → Prop
  | owed {p : Provider} {k : Plan α} (h : Tallies none k) :
    Tallies (some p) (.count (.heldBack p) k)
  | done {a : α} : Tallies none (.done a)
  | checkCircuit {p : Provider} {k : Bool → Plan α} (h : ∀ isOpen, Tallies none (k isOpen)) :
    Tallies none (.checkCircuit p k)
  | openCircuit {p : Provider} {ms : Nat} {k : Plan α} (h : Tallies none k) :
    Tallies none (.openCircuit p ms k)
  | count {s : Series} {k : Plan α} (hs : ∀ p, s ≠ .heldBack p) (h : Tallies none k) :
    Tallies none (.count s k)
  | awaitTurn {p : Provider} {k : Except Failure Nat → Plan α}
    (hk : ∀ waited, Tallies (if waited = 0 then none else some p) (k (.ok waited)))
    (hk' : ∀ failure, Tallies none (k (.error failure))) : Tallies none (.awaitTurn p.name k)
  | place {client : Nat} {q : Question} {k : Nat → Plan α} (h : ∀ delay, Tallies none (k delay)) :
    Tallies none (.place client q k)
  | receive {client : Nat} {q : Question} {k : Except Failure q.Answer → Plan α}
    (h : ∀ answer, Tallies none (k answer)) : Tallies none (.receive client q k)
  | pause {ms : Nat} {k : Plan α} (h : Tallies none k) : Tallies none (.pause ms k)
  | readClock {k : Time → Plan α} (h : ∀ now, Tallies none (k now)) : Tallies none (.readClock k)

namespace Plan.Tallies

variable {α β : Type} {owing : Option Provider} {plan : Plan α}

theorem bind {f : α → Plan β} (h : plan.Tallies owing) (hf : ∀ a, (f a).Tallies none) :
    (plan.bind f).Tallies owing := by
  induction h with
  | owed _ ih => exact .owed ih
  | done => exact hf _
  | checkCircuit _ ih => exact .checkCircuit ih
  | openCircuit _ ih => exact .openCircuit ih
  | count hs _ ih => exact .count hs ih
  | awaitTurn _ _ ih ih' => exact .awaitTurn ih ih'
  | place _ ih => exact .place ih
  | receive _ ih => exact .receive ih
  | pause _ ih => exact .pause ih
  | readClock _ ih => exact .readClock ih

end Plan.Tallies

namespace Attempt

variable {α β : Type}

theorem tallies_bind {x : Attempt α} {f : α → Attempt β} (hx : x.run.Tallies none)
    (hf : ∀ a, (f a).run.Tallies none) : (x >>= f).run.Tallies none := by
  refine Plan.Tallies.bind hx fun r => ?_
  cases r with
  | ok a => exact hf a
  | error failure => exact .done

theorem tallies_awaitTurn (p : Provider) : (awaitTurn p).run.Tallies none := by
  refine .awaitTurn (fun waited => ?_) fun failure => .done
  change Plan.Tallies _ (if waited ≠ 0 then _ else _ : Attempt Unit).run
  by_cases hwaited : waited = 0
  · rw [if_pos hwaited, if_neg (not_not_intro hwaited)]
    exact .done
  · rw [if_neg hwaited, if_pos hwaited]
    exact .owed .done

theorem tallies_ask (client : Nat) (q : Question) : (ask client q).run.Tallies none :=
  .place fun _ => .pause (.receive fun _ => .done)

theorem tallies_resolve (client : Nat) (p : Provider) (key : Key) :
    (resolve client p key).run.Tallies none := by
  refine tallies_bind (tallies_awaitTurn p) fun _ =>
    tallies_bind (tallies_ask client _) fun isCached => ?_
  cases isCached with
  | false => exact .done
  | true =>
    exact tallies_bind (tallies_awaitTurn p) fun _ =>
      tallies_bind (tallies_ask client _) fun _ => .done

theorem tallies_refresh (client : Nat) (key : Key) (file : CachedFile) :
    (refresh client key file).run.Tallies none := by
  refine tallies_bind (tallies_awaitTurn file.provider) fun _ =>
    tallies_bind (tallies_ask client _) fun link => ?_
  cases link with
  | none => exact .done
  | some link => exact .readClock fun _ => .done

end Attempt

namespace RetryPolicy

variable {policy : RetryPolicy} {p : Provider} {attempt : Attempt Outcome}

theorem tallies_concede (policy : RetryPolicy) (p : Provider) (failure : Failure) :
    (policy.concede p failure).Tallies none := by
  unfold concede
  dsimp only
  split
  · exact .openCircuit (.count nofun (.count nofun .done))
  · exact .count nofun .done

theorem tallies_settle {again : Failure → Plan CallResult}
    (hagain : ∀ failure, (again failure).Tallies none) (r : CallResult) :
    (policy.settle p again r).Tallies none := by
  cases r with
  | ok outcome => exact .count nofun .done
  | error failure =>
    rw [settle]
    split
    · exact .done
    · split
      · exact hagain failure
      · exact tallies_concede policy p failure

theorem tallies_attempts (h : attempt.run.Tallies none) (left : Nat) :
    (policy.attempts p attempt left).Tallies none := by
  induction left with
  | zero => exact h.bind (tallies_settle (tallies_concede policy p))
  | succ left ih => exact h.bind (tallies_settle fun _ => .count nofun (.pause ih))

theorem tallies_call (h : attempt.run.Tallies none) : (policy.call p attempt).Tallies none := by
  refine .checkCircuit fun isOpen => ?_
  cases isOpen with
  | true => exact .count nofun (.count nofun .done)
  | false => exact tallies_attempts h policy.retries

end RetryPolicy

theorem Request.plan_tallies (policy : RetryPolicy) (r : Request) (client : Nat × Provider) :
    (r.plan policy client).Tallies none := by
  cases r with
  | everyone key => exact RetryPolicy.tallies_call (Attempt.tallies_resolve client.1 client.2 key)
  | one call =>
    cases call with
    | resolve key p => exact RetryPolicy.tallies_call (Attempt.tallies_resolve client.1 p key)
    | refresh key file =>
      exact RetryPolicy.tallies_call (Attempt.tallies_refresh client.1 key file)

namespace World

theorem place_metrics (w : World) (client : Nat) (q : Question) :
    (w.place client q).2.metrics = w.metrics := by
  obtain ⟨clients, hw⟩ := w.place_eq client q
  rw [hw]

theorem receive_metrics (w : World) (client : Nat) (q : Question) :
    (w.receive client q).2.metrics = w.metrics := by
  obtain ⟨n, clients, wire, hw⟩ := w.receive_eq client q
  rw [hw]

end World

def Grant.isWait (p : Provider) (g : Grant) : Bool := g.stay.name = p.name && g.told ≠ 0

namespace Stage

variable {α : Type} {task : Nat} {w : World} {stage stage' : Stage α} {name : String}
variable {k : Except Failure Nat → Plan α} {p : Provider}

def owes (p : Provider) : Stage α → Bool
  | .ready (.count (.heldBack other) _) => other = p
  | _ => false

inductive Tallies : Stage α → Prop
  | ready {owing : Option Provider} {plan : Plan α} (h : plan.Tallies owing) : Tallies (.ready plan)
  | inLine {number : Nat} {name : String} {k : Except Failure Nat → Plan α}
    (h : (Plan.awaitTurn name k).Tallies none) : Tallies (.inLine number name k)
  | atHead {number since : Nat} {name : String} {k : Except Failure Nat → Plan α}
    (h : (Plan.awaitTurn name k).Tallies none) : Tallies (.atHead number name since k)
  | finished {a : α} : Tallies (.finished a)

theorem owes_ready {owing : Option Provider} {plan : Plan α} (h : plan.Tallies owing) :
    (Stage.ready plan).owes p = decide (owing = some p) := by
  cases h with
  | owed => simp [owes]
  | @count s _ hs =>
    cases s with
    | heldBack other => exact absurd rfl (hs other)
    | _ => rfl
  | _ => rfl

theorem Tallies.aside (h : stage.Tallies) (hwindow : stage.atWindow? = none) (p : Provider) :
    (stage.move task w).stage.Tallies ∧
      (stage.move task w).world.metrics.count (.heldBack p) +
          (if (stage.move task w).stage.owes p then 1 else 0) =
        w.metrics.count (.heldBack p) + if stage.owes p then 1 else 0 := by
  have hnone {plan : Plan α} (h : plan.Tallies none) : (Stage.ready plan).owes p = false := by
    rw [owes_ready h]
    rfl
  have hgoes {plan plan' : Plan α} {w' : World} (h : plan.Tallies none)
      (h' : plan'.Tallies none)
      (hmetrics : w'.metrics.count (.heldBack p) = w.metrics.count (.heldBack p)) :
      (Stage.ready plan').Tallies ∧
        w'.metrics.count (.heldBack p) + (if (Stage.ready plan').owes p then 1 else 0) =
          w.metrics.count (.heldBack p) + if (Stage.ready plan).owes p then 1 else 0 :=
    ⟨.ready h', by rw [hnone h, hnone h', hmetrics]⟩
  have hsame {m m' : Metrics} (h : m = m') : m.count (.heldBack p) = m'.count (.heldBack p) :=
    congrArg (fun m : Metrics => m.count (.heldBack p)) h
  cases h with
  | ready hplan =>
    have hplan' := hplan
    cases hplan with
    | @owed q k h =>
      refine ⟨.ready h, ?_⟩
      change (w.metrics.add (.heldBack q)).count _ + (if (Stage.ready k).owes p then 1 else 0) = _
      rw [Metrics.count_add, hnone h, owes_ready hplan']
      simp [eq_comm]
    | done => exact ⟨.finished, rfl⟩
    | checkCircuit h => exact hgoes hplan' (h _) rfl
    | openCircuit h => exact hgoes hplan' h rfl
    | @count s k hs h =>
      refine hgoes hplan' h ?_
      change (w.metrics.add s).count (.heldBack p) = _
      rw [Metrics.count_add, if_neg (hs p).symm, Nat.add_zero]
    | awaitTurn => cases hwindow
    | @place client q k h => exact hgoes hplan' (h _) (hsame (w.place_metrics client q))
    | @receive client q k h => exact hgoes hplan' (h _) (hsame (w.receive_metrics client q))
    | @pause ms k h => cases ms <;> exact hgoes hplan' h rfl
    | readClock h => exact hgoes hplan' (h _) rfl
  | inLine | atHead => cases hwindow
  | finished => exact ⟨.finished, rfl⟩

theorem Tallies.decision (h : stage.Tallies) (hwindow : stage.atWindow? = some (name, k))
    {now : Nat} {g : Option Grant} (hdecision : Decision task now name k g stage')
    (p : Provider) : stage'.Tallies ∧ stage.owes p = false ∧
      (if stage'.owes p then 1 else 0) = g.toList.countP (·.isWait p) := by
  have hplan : (Plan.awaitTurn name k).Tallies none ∧ stage.owes p = false := by
    cases h with
    | @ready owing plan h =>
      cases h with
      | awaitTurn hk hk' =>
        cases hwindow
        exact ⟨.awaitTurn hk hk', rfl⟩
      | _ => cases hwindow
    | inLine h | atHead h =>
      cases hwindow
      exact ⟨h, rfl⟩
    | finished => cases hwindow
  obtain ⟨hplan, howes⟩ := hplan
  cases hdecision with
  | behind => exact ⟨.inLine hplan, howes, rfl⟩
  | held => exact ⟨.atHead hplan, howes, rfl⟩
  | refused =>
    cases hplan with
    | awaitTurn hk hk' =>
      refine ⟨.ready (hk' _), howes, ?_⟩
      rw [owes_ready (hk' _)]
      rfl
  | @admitted g _ hname =>
    cases hplan with
    | @awaitTurn q _ hk hk' =>
      refine ⟨.ready (hk _), howes, ?_⟩
      have hsame : q.name = p.name ↔ q = p := ⟨Provider.name_injective, congrArg _⟩
      rw [owes_ready (hk _), Option.toList_some, List.countP_singleton, Grant.isWait, hname]
      by_cases htold : g.told = 0 <;> simp [htold, hsame]

end Stage

namespace Lobby

variable {α : Type}

def owing (l : Lobby α) (p : Provider) : Nat := l.machine.stages.countP (·.owes p)

def waits (l : Lobby α) (p : Provider) : Nat := l.grants.countP (·.isWait p)

/-- A lobby whose plans count the waits that they are told, in which a world's waits have been
    counted before. -/
structure Tallied (w : World) (l : Lobby α) : Prop where
  stages {stage : Stage α} (h : stage ∈ l.machine.stages) : stage.Tallies
  counts (p : Provider) : l.machine.world.metrics.count (.heldBack p) + l.owing p =
    w.metrics.count (.heldBack p) + l.waits p

variable {l l' : Lobby α} {w : World} {task : Nat} {stage : Stage α}

theorem owing_go (hstage : l.machine.stages[task]? = some stage) (p : Provider) :
    (l.go task stage).owing p + (if stage.owes p then 1 else 0) =
      l.owing p + if (stage.move task l.machine.world).stage.owes p then 1 else 0 := by
  obtain ⟨hlt, hget⟩ := List.getElem?_eq_some_iff.1 hstage
  have hle : (if stage.owes p then 1 else 0) ≤ l.machine.stages.countP (·.owes p) := by
    split
    · exact List.countP_pos_iff.2 ⟨stage, List.mem_of_getElem? hstage, ‹_›⟩
    · exact Nat.zero_le _
  change (l.machine.stages.set task _).countP _ + _ = _
  rw [List.countP_set hlt, hget, owing]
  omega

namespace Tallied

theorem go (h : l.Tallied w) (hkept : l.Kept) (hstage : l.machine.stages[task]? = some stage)
    (hhere : task ∉ l.gone) : (l.go task stage).Tallied w := by
  have hstage' := h.stages (List.mem_of_getElem? hstage)
  have howing := owing_go hstage
  have hwaits (p : Provider) : (l.go task stage).waits p =
      l.waits p + (l.grant? task stage).toList.countP (·.isWait p) := List.countP_append
  obtain ⟨htallies, hcounts⟩ : (stage.move task l.machine.world).stage.Tallies ∧
      ∀ p, (stage.move task l.machine.world).world.metrics.count (.heldBack p) +
          (if (stage.move task l.machine.world).stage.owes p then 1 else 0) =
        l.machine.world.metrics.count (.heldBack p) + (if stage.owes p then 1 else 0) +
          (l.grant? task stage).toList.countP (·.isWait p) := by
    cases hwindow : stage.atWindow? with
    | none =>
      rw [grant?_of_aside hwindow]
      exact ⟨(hstage'.aside hwindow .premiumize).1, fun p => (hstage'.aside hwindow p).2⟩
    | some window =>
      obtain ⟨hdecision, -, limiter, hworld⟩ := hkept.decision hstage hhere hwindow
      rw [hworld]
      have hdecided := hstage'.decision hwindow hdecision
      refine ⟨(hdecided .premiumize).1, fun p => ?_⟩
      rw [(hdecided p).2.1, (hdecided p).2.2]
      rfl
  refine ⟨fun hmem => ?_, fun p => ?_⟩
  · rcases List.mem_or_eq_of_mem_set hmem with hmem | rfl
    · exact h.stages hmem
    · exact htallies
  · have hbefore := h.counts p
    have hstep := hcounts p
    have howing := howing p
    rw [hwaits]
    change (stage.move task l.machine.world).world.metrics.count _ + _ = _
    omega

theorem step (h : l.Tallied w) (hkept : l.Kept) (hstep : l.Step (Plan.Tallies none) l') :
    l'.Tallied w := by
  cases hstep with
  | @enter plans hplans =>
    refine ⟨fun hmem => ?_, fun p => ?_⟩
    · rcases List.mem_append.1 hmem with hmem | hmem
      · exact h.stages hmem
      · obtain ⟨plan, hplan, rfl⟩ := List.mem_map.1 hmem
        exact .ready (hplans plan hplan)
    · have hnone : (plans.map Stage.ready).countP (·.owes p) = 0 := by
        refine List.countP_eq_zero.2 fun stage hmem => ?_
        obtain ⟨plan, hplan, rfl⟩ := List.mem_map.1 hmem
        rw [Stage.owes_ready (hplans plan hplan)]
        nofun
      have hentered : (l.atMachine (l.machine.enter plans)).owing p = l.owing p :=
        List.countP_append.trans (by rw [hnone]; rfl)
      rw [hentered]
      exact h.counts p
  | go _ hstage _ hhere => exact h.go hkept hstage hhere
  | @drop task stage hstage =>
    obtain ⟨hstages, hmetrics, hgrants⟩ := l.drop_machine task stage
    refine ⟨fun hmem => h.stages (hstages ▸ hmem), fun p => ?_⟩
    rw [owing, waits, hstages, hmetrics, hgrants]
    exact h.counts p
  | skip | pass => exact ⟨h.stages, h.counts⟩
  | outside _ _ hwaits => exact ⟨h.stages, fun p => (hwaits p).symm ▸ h.counts p⟩

theorem run (hrest : w.limiter.AtRest) (hrun : (Lobby.opened w).Run (Plan.Tallies none) l) :
    l.Tallied w := by
  induction hrun with
  | refl => exact ⟨nofun, fun _ => rfl⟩
  | step hbefore hstep ih => exact ih.step (.run hrest hbefore) hstep

end Tallied

theorem owing_of_isOver (h : l.machine.isOver = true) (p : Provider) : l.owing p = 0 := by
  refine List.countP_eq_zero.2 fun stage hmem => ?_
  have hfinished := List.all_eq_true.1 h stage hmem
  cases stage with
  | finished => nofun
  | ready | inLine | atHead => cases hfinished

theorem run_of_machine {allows : Plan α → Prop} (w : World) {plans : List (Plan α)}
    (hplans : ∀ plan ∈ plans, allows plan) (enough : List (Finish α) → Bool) (collects : Bool)
    (fuel : Nat) : ∃ l, (opened w).Run allows l ∧
      l.machine = ((Machine.start w plans).run enough collects fuel).2 := by
  have hentered : (opened w).Run allows ((opened w).atMachine ((opened w).machine.enter plans)) :=
    .step .refl (.enter hplans)
  rw [show (opened w).machine.enter plans = _ from Machine.enter_start w plans] at hentered
  have hended : ∃ l, (opened w).Run allows l ∧ l.gone = [] ∧
      l.machine = ((Machine.start w plans).run enough collects fuel).2 := by
    refine Machine.run_induction
      (P := fun m => ∃ l, (opened w).Run allows l ∧ l.gone = [] ∧ l.machine = m)
      (fun h hstep => ?_) (fun h hqueue hdone => ?_) enough collects fuel ⟨_, hentered, rfl, rfl⟩
    · obtain ⟨⟨m, gone, stays, grants⟩, hrun, rfl, rfl⟩ := h
      cases hstep with
      | go hqueue hstage hgoing =>
        exact ⟨_, hrun.step (.go hqueue hstage hgoing List.not_mem_nil), rfl, rfl⟩
      | pass hqueue hnext => exact ⟨_, hrun.step (.pass _), rfl, rfl⟩
    · obtain ⟨⟨m, gone, stays, grants⟩, hrun, rfl, rfl⟩ := h
      exact ⟨_, hrun.step (.skip hqueue hdone), rfl, rfl⟩
  obtain ⟨l, hrun, -, hmachine⟩ := hended
  exact ⟨l, hrun, hmachine⟩

/-- What the tasks of a lobby are told. -/
structure Tells (l : Lobby α) : Prop where
  timely {g : Grant} (h : g ∈ l.grants) : g.IsTimely
  decides {task : Nat} {stage : Stage α} {name : String} {k : Except Failure Nat → Plan α}
    (hstage : l.machine.stages[task]? = some stage) (hhere : task ∉ l.gone)
    (hwindow : stage.atWindow? = some (name, k)) :
    Decision task l.machine.world.clock name k (l.grant? task stage)
      (stage.move task l.machine.world).stage

theorem Kept.tells (h : l.Kept) : l.Tells :=
  ⟨h.grants, fun hstage hhere hwindow => (h.decision hstage hhere hwindow).1⟩

def go? (l : Lobby α) (task : Nat) : Option (Lobby α) :=
  match l.machine.stages[task]? with
  | some stage =>
    if task ∈ l.machine.queue ∧ task ∉ l.gone ∧ stage.isFinished = false then
      some (l.go task stage)
    else none
  | none => none

theorem Run.go? {allows : Plan α → Prop} {l₀ : Lobby α} (h : l₀.Run allows l)
    (hgo : l.go? task = some l') : l₀.Run allows l' := by
  unfold Lobby.go? at hgo
  split at hgo
  next stage hstage =>
    split at hgo
    next hcan =>
      cases hgo
      exact h.step (.go hcan.1 hstage hcan.2.2 hcan.2.1)
    next => cases hgo
  next => cases hgo

theorem Run.goes {allows : Plan α → Prop} {l₀ : Lobby α} {tasks : List Nat}
    (h : l₀.Run allows l) (hgo : tasks.foldlM Lobby.go? l = some l') : l₀.Run allows l' := by
  induction tasks generalizing l with
  | nil =>
    cases hgo
    exact h
  | cons task rest ih =>
    obtain ⟨next, hnext, hgo⟩ := Option.bind_eq_some_iff.1 hgo
    exact ih (h.go? hnext) hgo

theorem exists_run {allows : Plan α → Prop} {P : Lobby α → Prop} (plans : List (Plan α))
    (before : List Nat) (moment : Nat) (after : List Nat) (hplans : ∀ plan ∈ plans, allows plan)
    (h : ∃ l ∈ (before.foldlM go? ((opened w).atMachine ((opened w).machine.enter plans))).bind
      fun l => after.foldlM go? (l.atMachine (l.machine.passTo moment)), P l) :
    ∃ l, (opened w).Run allows l ∧ P l := by
  obtain ⟨l, hl, hP⟩ := h
  obtain ⟨l', hl', hl⟩ := Option.bind_eq_some_iff.1 hl
  have hentered : (opened w).Run allows ((opened w).atMachine ((opened w).machine.enter plans)) :=
    .step .refl (.enter hplans)
  exact ⟨l, ((hentered.goes hl').step (.pass moment)).goes hl, hP⟩

end Lobby

/-- Whatever comes to windows, goes on or is dropped, at whatever moments: a task that is let in is
    told the time since it first asked with nobody before it. That is when it came if it found
    nobody in line; what it stood behind others is left out. A provider's counted waits, with those
    that are about to be counted, are its calls that were told a wait. All calls count their waits
    like that, and all that the machine does by itself is such a run. -/
theorem waits_are_told_from_head_of_line {α : Type} (allows : Plan α → Prop) {w : World}
    (hrest : w.limiter.AtRest) :
    (∀ l, (Lobby.opened w).Run allows l → l.Tells) ∧
      (∀ l : Lobby α, (Lobby.opened w).Run (Plan.Tallies none) l → ∀ p,
        l.machine.world.metrics.count (.heldBack p) + l.owing p =
            w.metrics.count (.heldBack p) + l.waits p ∧
          (l.machine.isOver = true → l.owing p = 0)) ∧
      (∀ (policy : RetryPolicy) (r : Request) client, (r.plan policy client).Tallies none) ∧
      ∀ plans : List (Plan α), (∀ plan ∈ plans, allows plan) → ∀ enough collects fuel,
        ∃ l, (Lobby.opened w).Run allows l ∧
          l.machine = ((Machine.start w plans).run enough collects fuel).2 :=
  ⟨fun _ hrun => (Lobby.Kept.run hrest hrun).tells,
    fun _ hrun p => ⟨(Lobby.Tallied.run hrest hrun).counts p, (Lobby.owing_of_isOver · p)⟩,
    Request.plan_tallies, fun _ hplans => Lobby.run_of_machine w hplans⟩

/-- With a quota of one the second of two calls waits alone: it is told its whole wait, and it is
    counted. -/
theorem waits_are_told_from_head_of_line_of_two :
    let file : CachedFile := ⟨"a.mkv", 7, none, "link", .premiumize, 0, ∅⟩
    let w := World.start [.having .premiumize [file]] (.ofStandard ⟨10, 1⟩) ⟨.memory, default⟩
      ⟨[], [], .common⟩ (fun _ => 0)
    w.limiter.AtRest ∧ ∃ l : Lobby CallResult, (Lobby.opened w).Run (Plan.Tallies none) l ∧
      l.grants.map (fun g => (g.task, g.stay.came, g.moment, g.told)) =
        [(0, 0, 0, 0), (1, 0, 10, 10)] ∧
      l.machine.world.metrics.count (.heldBack .premiumize) = 1 ∧ l.Tells ∧
      l.machine.world.metrics.count (.heldBack .premiumize) + l.owing .premiumize =
        w.metrics.count (.heldBack .premiumize) + l.waits .premiumize := by
  intro file w
  have hrest : w.limiter.AtRest := Limiter.atRest_ofStandard _
  let call : Plan CallResult :=
    (Request.one (.refresh (.torrent "hash" "magnet") file)).plan ⟨0, 0, 0⟩ (0, .premiumize)
  obtain ⟨l, hrun, hgrants, hcount⟩ : ∃ l, (Lobby.opened w).Run (Plan.Tallies none) l ∧
      l.grants.map (fun g => (g.task, g.stay.came, g.moment, g.told)) =
        [(0, 0, 0, 0), (1, 0, 10, 10)] ∧
      l.machine.world.metrics.count (.heldBack .premiumize) = 1 :=
    Lobby.exists_run (List.replicate 2 call) [0, 0, 1, 1] 10 [1, 1]
      (fun plan hplan => List.eq_of_mem_replicate hplan ▸ Request.plan_tallies _ _ _)
      (by decide +kernel)
  obtain ⟨htells, hcounts, -⟩ :=
    waits_are_told_from_head_of_line (@Plan.Tallies CallResult none) hrest
  exact ⟨hrest, l, hrun, hgrants, hcount, htells l hrun, (hcounts l hrun .premiumize).1⟩

/-- Two calls fill the window, the third waits for it, and the fourth stands behind the third. When
    time has passed both are let in. The fourth has waited as long as the third, is told that it
    did not wait, and is not counted. -/
theorem calls_behind_others_are_not_counted :
    let file : CachedFile := ⟨"a.mkv", 7, none, "link", .premiumize, 0, ∅⟩
    let w := World.start [.having .premiumize [file]] (.ofStandard ⟨10, 2⟩) ⟨.memory, default⟩
      ⟨[], [], .common⟩ (fun _ => 0)
    ∃ l : Lobby CallResult, (Lobby.opened w).Run (Plan.Tallies none) l ∧
      l.grants.map (fun g => (g.task, g.stay.came, g.moment, g.told)) =
        [(0, 0, 0, 0), (1, 0, 0, 0), (2, 0, 10, 10), (3, 0, 10, 0)] ∧
      (l.grants.countP fun g => g.stay.came < g.moment) = 2 ∧ l.owing .premiumize = 0 ∧
      l.machine.world.metrics.count (.heldBack .premiumize) = 1 := by
  intro file w
  let call : Plan CallResult :=
    (Request.one (.refresh (.torrent "hash" "magnet") file)).plan ⟨0, 0, 0⟩ (0, .premiumize)
  exact Lobby.exists_run (List.replicate 4 call) [0, 0, 1, 1, 2, 2, 3, 3] 10 [2, 2, 3]
    (fun plan hplan => List.eq_of_mem_replicate hplan ▸ Request.plan_tallies _ _ _)
    (by decide +kernel)

end LinkRelay
