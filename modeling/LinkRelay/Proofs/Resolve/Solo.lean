import LinkRelay.Proofs.Limiter.Turns
import LinkRelay.Session
set_option autoImplicit false

/-!
# A task that runs alone

`Plan.exec` says what a plan comes to when nobody else is about: every question is answered in its
turn, and a wait is time that passes. `Session.runOne_of_atRest` says that the machine, given one
task and enough turns, comes to the same.
-/

namespace LinkRelay

namespace World

/-- Between two operations: nobody stands in line at the limiter, and no caller has a deadline. -/
structure AtRest (w : World) : Prop where
  limiter : w.limiter.AtRest
  patient : w.deadline = none

def pass (w : World) (ms : Nat) : World := { w with clock := w.clock + ms }

def grant (w : World) (name : String) : Except Failure Nat × World :=
  let window := w.limiter.present name
  if window.limit.quota = 0 then
    (.error (.internal (.zeroQuota name)), { w with limiter := w.limiter.put name window })
  else
    let moment := window.turn w.clock
    (.ok (moment - w.clock),
      { w with clock := moment, limiter := w.limiter.put name (window.grant moment) })

variable {w : World} {name : String}

theorem grant_of_zero (h : (w.limiter.present name).limit.quota = 0) :
    w.grant name = (.error (.internal (.zeroQuota name)),
      { w with limiter := w.limiter.put name (w.limiter.present name) }) :=
  if_pos h

theorem grant_of_pos (h : 0 < (w.limiter.present name).limit.quota) :
    w.grant name = (.ok ((w.limiter.present name).turn w.clock - w.clock),
      { w with
        clock := (w.limiter.present name).turn w.clock
        limiter := w.limiter.put name
          ((w.limiter.present name).grant ((w.limiter.present name).turn w.clock)) }) :=
  if_neg (Nat.ne_of_gt h)

theorem AtRest.grant (h : w.AtRest) (name : String) : (w.grant name).2.AtRest := by
  have hpresent := h.limiter.resting name
  rcases Nat.eq_zero_or_pos (w.limiter.present name).limit.quota with hquota | hquota
  · rw [grant_of_zero hquota]
    exact ⟨(h.limiter.put ..).atRest h.limiter hpresent, h.patient⟩
  · rw [grant_of_pos hquota]
    exact ⟨(h.limiter.put ..).atRest h.limiter (hpresent.grant hquota), h.patient⟩

/-- What all tasks leave alone, and the calendar, of which some readings may have been taken. -/
structure Onward (w w' : World) : Prop where
  store : w'.store = w.store
  deadline : w'.deadline = w.deadline
  calendar : ∃ n, ∀ k, w'.calendar k = w.calendar (k + n)

theorem Onward.rfl : w.Onward w := ⟨Eq.refl _, Eq.refl _, 0, fun _ => Eq.refl _⟩

theorem later_trans {c c' c'' : Nat → Time} (h : ∃ n, ∀ k, c' k = c (k + n))
    (h' : ∃ n, ∀ k, c'' k = c' (k + n)) : ∃ n, ∀ k, c'' k = c (k + n) := by
  obtain ⟨n, hn⟩ := h
  obtain ⟨m, hm⟩ := h'
  exact ⟨m + n, fun k => by rw [hm, hn, Nat.add_assoc]⟩

theorem Onward.trans {w' w'' : World} (h : w.Onward w') (h' : w'.Onward w'') : w.Onward w'' :=
  ⟨h'.store.trans h.store, h'.deadline.trans h.deadline, later_trans h.calendar h'.calendar⟩

theorem onward_readWall (w : World) : w.Onward w.readWall.2 :=
  ⟨Eq.refl _, Eq.refl _, 1, fun _ => Eq.refl _⟩

theorem grant_eq (w : World) (name : String) :
    ∃ clock limiter, (w.grant name).2 = { w with clock, limiter } := by
  unfold World.grant
  dsimp only
  split <;> exact ⟨_, _, rfl⟩

theorem place_eq (w : World) (client : Nat) (q : Question) :
    ∃ clients, (w.place client q).2 = { w with clients } := by
  unfold place
  split <;> exact ⟨_, rfl⟩

theorem receive_eq (w : World) (client : Nat) (q : Question) :
    ∃ n clients wire, (w.receive client q).2 =
      { w with calendar := fun k => w.calendar (k + n), clients, wire } := by
  unfold receive
  split
  · exact ⟨_, _, _, rfl⟩
  · exact ⟨0, w.clients, w.wire, rfl⟩

theorem onward_grant (w : World) (name : String) : w.Onward (w.grant name).2 := by
  obtain ⟨clock, limiter, hw⟩ := w.grant_eq name
  rw [hw]
  exact ⟨Eq.refl _, Eq.refl _, 0, fun _ => Eq.refl _⟩

theorem onward_place (w : World) (client : Nat) (q : Question) :
    w.Onward (w.place client q).2 := by
  obtain ⟨clients, hw⟩ := w.place_eq client q
  rw [hw]
  exact ⟨Eq.refl _, Eq.refl _, 0, fun _ => Eq.refl _⟩

theorem onward_receive (w : World) (client : Nat) (q : Question) :
    w.Onward (w.receive client q).2 := by
  obtain ⟨n, clients, wire, hw⟩ := w.receive_eq client q
  rw [hw]
  exact ⟨Eq.refl _, Eq.refl _, n, fun _ => Eq.refl _⟩

theorem AtRest.atBreaker (h : w.AtRest) (breaker : Breaker) : { w with breaker }.AtRest :=
  ⟨h.limiter, h.patient⟩

theorem AtRest.atCount (h : w.AtRest) (s : Series) : (w.count s).AtRest := ⟨h.limiter, h.patient⟩

theorem AtRest.atPass (h : w.AtRest) (ms : Nat) : (w.pass ms).AtRest := ⟨h.limiter, h.patient⟩

theorem AtRest.atReadWall (h : w.AtRest) : w.readWall.2.AtRest := ⟨h.limiter, h.patient⟩

theorem AtRest.place (h : w.AtRest) (client : Nat) (q : Question) :
    (w.place client q).2.AtRest := by
  obtain ⟨clients, hw⟩ := w.place_eq client q
  rw [hw]
  exact ⟨h.limiter, h.patient⟩

theorem AtRest.receive (h : w.AtRest) (client : Nat) (q : Question) :
    (w.receive client q).2.AtRest := by
  obtain ⟨n, clients, wire, hw⟩ := w.receive_eq client q
  rw [hw]
  exact ⟨h.limiter, h.patient⟩

end World

namespace Plan

variable {α β : Type}

/-- What a plan comes to that is carried out alone. -/
def exec : Plan α → World → α × World
  | .done a, w => (a, w)
  | .checkCircuit p k, w =>
    let (isOpen, breaker) := w.breaker.check p.name w.clock
    (k isOpen).exec { w with breaker }
  | .openCircuit p ms k, w => k.exec { w with breaker := w.breaker.trip p.name ms w.clock }
  | .count s k, w => k.exec (w.count s)
  | .awaitTurn name k, w =>
    let (waited, w) := w.grant name
    (k waited).exec w
  | .place c q k, w =>
    let (delay, w) := w.place c q
    (k delay).exec w
  | .receive c q k, w =>
    let (answer, w) := w.receive c q
    (k answer).exec w
  | .pause ms k, w => k.exec (w.pass ms)
  | .readClock k, w =>
    let (now, w) := w.readWall
    (k now).exec w

theorem exec_bind (plan : Plan α) (f : α → Plan β) (w : World) :
    (plan.bind f).exec w = (f (plan.exec w).1).exec (plan.exec w).2 := by
  induction plan generalizing w with
  | done a => rfl
  | checkCircuit p k ih => exact ih _ _
  | openCircuit p ms k ih => exact ih _
  | count s k ih => exact ih _
  | awaitTurn name k ih => exact ih _ _
  | place c q k ih => exact ih _ _
  | receive c q k ih => exact ih _ _
  | pause ms k ih => exact ih _
  | readClock k ih => exact ih _ _

theorem onward_exec (plan : Plan α) (w : World) : w.Onward (plan.exec w).2 := by
  induction plan generalizing w with
  | done a => exact .rfl
  | checkCircuit p k ih =>
    obtain ⟨hstore, hdeadline, hcalendar⟩ := ih (w.breaker.check p.name w.clock).1
      { w with breaker := (w.breaker.check p.name w.clock).2 }
    exact ⟨hstore, hdeadline, hcalendar⟩
  | openCircuit p ms k ih =>
    obtain ⟨hstore, hdeadline, hcalendar⟩ := ih { w with breaker := w.breaker.trip p.name ms w.clock }
    exact ⟨hstore, hdeadline, hcalendar⟩
  | count s k ih =>
    obtain ⟨hstore, hdeadline, hcalendar⟩ := ih (w.count s)
    exact ⟨hstore, hdeadline, hcalendar⟩
  | awaitTurn name k ih => exact (w.onward_grant name).trans (ih _ _)
  | place c q k ih => exact (w.onward_place c q).trans (ih _ _)
  | receive c q k ih => exact (w.onward_receive c q).trans (ih _ _)
  | pause ms k ih =>
    obtain ⟨hstore, hdeadline, hcalendar⟩ := ih (w.pass ms)
    exact ⟨hstore, hdeadline, hcalendar⟩
  | readClock k ih => exact w.onward_readWall.trans (ih _ _)

theorem atRest_exec (plan : Plan α) {w : World} (h : w.AtRest) : (plan.exec w).2.AtRest := by
  induction plan generalizing w with
  | done a => exact h
  | checkCircuit p k ih => exact ih _ (h.atBreaker _)
  | openCircuit p ms k ih => exact ih (h.atBreaker _)
  | count s k ih => exact ih (h.atCount s)
  | awaitTurn name k ih => exact ih _ (h.grant name)
  | place c q k ih => exact ih _ (h.place c q)
  | receive c q k ih => exact ih _ (h.receive c q)
  | pause ms k ih => exact ih (h.atPass ms)
  | readClock k ih => exact ih _ h.atReadWall

/-- Whatever is answered, a plan takes no more steps than this to its end. A wait takes a step to
    begin, one for the clock, and at a limiter one more to ask again. -/
def Takes : Plan α → Nat → Prop
  | .done _, _ => True
  | .checkCircuit _ k, n => 1 ≤ n ∧ ∀ b, (k b).Takes (n - 1)
  | .openCircuit _ _ k, n => 1 ≤ n ∧ k.Takes (n - 1)
  | .count _ k, n => 1 ≤ n ∧ k.Takes (n - 1)
  | .awaitTurn _ k, n => 3 ≤ n ∧ ∀ r, (k r).Takes (n - 3)
  | .place _ _ k, n => 1 ≤ n ∧ ∀ d, (k d).Takes (n - 1)
  | .receive _ _ k, n => 1 ≤ n ∧ ∀ r, (k r).Takes (n - 1)
  | .pause _ k, n => 2 ≤ n ∧ k.Takes (n - 2)
  | .readClock k, n => 1 ≤ n ∧ ∀ t, (k t).Takes (n - 1)

theorem Takes.mono {plan : Plan α} {n m : Nat} (h : plan.Takes n) (hle : n ≤ m) :
    plan.Takes m := by
  induction plan generalizing n m with
  | done a => trivial
  | checkCircuit p k ih => exact ⟨h.1.trans hle, fun b => ih b (h.2 b) (Nat.sub_le_sub_right hle 1)⟩
  | openCircuit p ms k ih => exact ⟨h.1.trans hle, ih h.2 (Nat.sub_le_sub_right hle 1)⟩
  | count s k ih => exact ⟨h.1.trans hle, ih h.2 (Nat.sub_le_sub_right hle 1)⟩
  | awaitTurn name k ih => exact ⟨h.1.trans hle, fun r => ih r (h.2 r) (Nat.sub_le_sub_right hle 3)⟩
  | place c q k ih => exact ⟨h.1.trans hle, fun d => ih d (h.2 d) (Nat.sub_le_sub_right hle 1)⟩
  | receive c q k ih => exact ⟨h.1.trans hle, fun r => ih r (h.2 r) (Nat.sub_le_sub_right hle 1)⟩
  | pause ms k ih => exact ⟨h.1.trans hle, ih h.2 (Nat.sub_le_sub_right hle 2)⟩
  | readClock k ih => exact ⟨h.1.trans hle, fun t => ih t (h.2 t) (Nat.sub_le_sub_right hle 1)⟩

theorem Takes.bind {plan : Plan α} {f : α → Plan β} {n m : Nat} (h : plan.Takes n)
    (hf : ∀ a, (f a).Takes m) : (plan.bind f).Takes (n + m) := by
  have hsub {i : Nat} (hi : i ≤ n) : n + m - i = n - i + m := by omega
  induction plan generalizing n with
  | done a => exact (hf a).mono (Nat.le_add_left m n)
  | checkCircuit p k ih =>
    exact ⟨h.1.trans (Nat.le_add_right n m), fun b => hsub h.1 ▸ ih b (h.2 b) (by omega)⟩
  | openCircuit p ms k ih =>
    exact ⟨h.1.trans (Nat.le_add_right n m), hsub h.1 ▸ ih h.2 (by omega)⟩
  | count s k ih => exact ⟨h.1.trans (Nat.le_add_right n m), hsub h.1 ▸ ih h.2 (by omega)⟩
  | awaitTurn name k ih =>
    exact ⟨h.1.trans (Nat.le_add_right n m), fun r => hsub h.1 ▸ ih r (h.2 r) (by omega)⟩
  | place c q k ih =>
    exact ⟨h.1.trans (Nat.le_add_right n m), fun d => hsub h.1 ▸ ih d (h.2 d) (by omega)⟩
  | receive c q k ih =>
    exact ⟨h.1.trans (Nat.le_add_right n m), fun r => hsub h.1 ▸ ih r (h.2 r) (by omega)⟩
  | pause ms k ih => exact ⟨h.1.trans (Nat.le_add_right n m), hsub h.1 ▸ ih h.2 (by omega)⟩
  | readClock k ih =>
    exact ⟨h.1.trans (Nat.le_add_right n m), fun t => hsub h.1 ▸ ih t (h.2 t) (by omega)⟩

end Plan

namespace World

variable {w : World}

theorem askWindow_put (w : World) (h : w.limiter.Sound) (name : String) (window : Window)
    (task : Nat) :
    ({ w with limiter := w.limiter.put name window } : World).askWindow
        (w.limiter.number name) task =
      ((window.ask task w.clock).1, (window.ask task w.clock).2.first?,
        { w with limiter := w.limiter.put name (window.ask task w.clock).2 }) := by
  rw [askWindow]
  dsimp only
  rw [h.ask_put]

/-- What a task is told that comes to a limiter at rest and asks: what it waits for is granted, at
    once or at the end of one wait. -/
inductive Asked (w : World) (name : String) (window : Nat) : Admission × Option Nat × World → Prop
  | refused {after : World}
    (hgrant : w.grant name = (.error (.internal (.zeroQuota name)), after)) :
    Asked w name window (.neverPossible, none, after)
  | admitted {after : World} (hgrant : w.grant name = (.ok 0, after)) :
    Asked w name window (.admitted, none, after)
  | held {moment : Nat} {next : Option Nat} {waiting after : World}
    (hlater : waiting.clock ≤ moment) (hpatient : waiting.deadline = none)
    (hagain : ({ waiting with clock := moment } : World).askWindow window 0 =
      (.admitted, none, after))
    (hgrant : w.grant name = (.ok (after.clock - waiting.clock), after)) :
    Asked w name window (.notBefore moment, next, waiting)

theorem AtRest.asked (h : w.AtRest) (name : String) :
    w.Asked name (w.limiter.arrive name 0).1
      (({ w with limiter := (w.limiter.arrive name 0).2 } : World).askWindow
        (w.limiter.arrive name 0).1 0) := by
  have hsound := h.limiter.toSound
  have hresting := h.limiter.resting name
  have hidle (moment : Nat) : ((w.limiter.present name).grant moment).first? = none :=
    congrArg List.head? hresting.idle
  have hjoined := hresting.join 0 w.clock
  rw [hsound.arrive_eq]
  dsimp only
  rw [w.askWindow_put hsound]
  generalize ((w.limiter.present name).join 0).ask 0 w.clock = answer at hjoined
  cases hjoined with
  | refused hquota =>
    dsimp only
    rw [show (w.limiter.present name).first? = none from congrArg List.head? hresting.idle]
    exact .refused (grant_of_zero hquota)
  | admitted hquota hturn =>
    dsimp only
    rw [hidle]
    refine .admitted ?_
    rw [grant_of_pos hquota, hturn, Nat.sub_self]
  | held hquota hturn hlater =>
    let moment := (w.limiter.present name).turn w.clock
    have hagain : ({ w with
        clock := moment
        limiter := w.limiter.put name ((w.limiter.present name).held 0 w.clock) } :
          World).askWindow (w.limiter.number name) 0 = (.admitted, none, (w.grant name).2) := by
      refine (({ w with clock := moment } : World).askWindow_put hsound name _ 0).trans ?_
      rw [grant_of_pos hquota, hlater]
      exact congrArg (fun next => (Admission.admitted, next, _)) (hidle moment)
    refine .held (Nat.le_of_lt hturn) h.patient hagain ?_
    rw [grant_of_pos hquota]

end World

namespace Machine

variable {α : Type} {plan : Plan α} {stage : Stage α} {w : World} {collects : Bool}
variable {fuel n : Nat} {enough : List (Finish α) → Bool}

def solo (w : World) (stage : Stage α) : Machine α := ⟨w, [stage], [0], [], []⟩

def asleep (w : World) (stage : Stage α) (moment : Nat) : Machine α :=
  ⟨w, [stage], [], [(moment, 0)], []⟩

def ended (r : α × World) : Machine α := ⟨r.2, [.finished r.1], [], [], [⟨0, r.2.clock, r.1⟩]⟩

theorem passTo_asleep {moment : Nat} (hlater : w.clock ≤ moment) :
    (asleep w stage moment).passTo moment = solo { w with clock := moment } stage := by
  simp [passTo, asleep, solo, Nat.max_eq_right hlater]

theorem run_asleep (henough : enough [] = false) (hstage : stage.isFinished = false)
    (hdeadline : w.deadline = none) {moment : Nat} (hlater : w.clock ≤ moment) :
    (asleep w stage moment).run enough collects (fuel + 1) =
      (solo { w with clock := moment } stage).run enough collects fuel := by
  have hover : (asleep w stage moment).isOver = false := by
    rw [isOver, asleep, List.all_cons, hstage, Bool.false_and]
  have hnext : (asleep w stage moment).nextMoment? = some moment := rfl
  have hpatient : (asleep w stage moment).world.deadline = none := hdeadline
  have hnone : enough (asleep w stage moment).finishes = false := henough
  rw [run, show (asleep w stage moment).queue = [] from rfl]
  dsimp only
  rw [hover, hnone, hnext, hpatient, ← passTo_asleep hlater]
  rfl

def after (t : Turn α) : Machine α where
  world := t.world
  stages := [t.stage]
  queue := t.woken
  timers := (t.wakeAt.map fun moment => (moment, 0)).toList
  finishes := match t.stage with
    | .finished a => [⟨0, t.world.clock, a⟩]
    | _ => []

theorem run_ready :
    (solo w (.ready plan)).run enough collects (fuel + 1) =
      (after (plan.run 0 w [])).run enough collects fuel :=
  rfl

theorem run_awaitTurn (henough : enough [] = false) (h : w.AtRest) (name : String)
    (k : Except Failure Nat → Plan α) :
    ∃ used ≤ 2, (solo w (.ready (.awaitTurn name k))).run enough collects (fuel + 3) =
      (solo (w.grant name).2 (.ready (k (w.grant name).1))).run enough collects
        (fuel + 3 - used) := by
  have hasked := h.asked name
  rw [run_ready, Plan.run]
  dsimp only
  generalize World.askWindow _ (w.limiter.arrive name 0).1 0 = answer at hasked
  cases hasked with
  | refused hgrant | admitted hgrant =>
    rw [hgrant]
    exact ⟨0, Nat.zero_le _, rfl⟩
  | @held moment next waiting after hlater hpatient hagain hgrant =>
    -- the caller sleeps until there is room, and asks once more
    refine ⟨2, le_refl _, ?_⟩
    let stage : Stage α := .atHead (w.limiter.arrive name 0).1 name waiting.clock k
    have hwaits : stage.isFinished = false := rfl
    change (asleep waiting stage moment).run enough collects (fuel + 2) = _
    rw [run_asleep henough hwaits hpatient hlater]
    change (Machine.after (Stage.askAgain 0 _ name waiting.clock k
      { waiting with clock := moment })).run enough collects fuel = _
    rw [Stage.askAgain, hagain, hgrant]
    rfl

theorem run_solo (henough : enough [] = false) (h : w.AtRest) (hn : plan.Takes n)
    (hfuel : n < fuel) :
    (solo w (.ready plan)).run enough collects fuel =
      (.settled, ended (plan.exec w)) := by
  induction plan generalizing w n fuel with
  | done a =>
    obtain ⟨fuel, rfl⟩ := Nat.exists_eq_add_one_of_ne_zero (Nat.ne_zero_of_lt hfuel)
    rw [run_ready]
    cases fuel <;> rfl
  | checkCircuit p k ih =>
    obtain ⟨fuel, rfl⟩ := Nat.exists_eq_add_one_of_ne_zero (Nat.ne_zero_of_lt hfuel)
    have hless : n - 1 < fuel + 1 := by omega
    exact ih (w.breaker.check p.name w.clock).1 (h.atBreaker _) (hn.2 _) hless
  | openCircuit p ms k ih =>
    obtain ⟨fuel, rfl⟩ := Nat.exists_eq_add_one_of_ne_zero (Nat.ne_zero_of_lt hfuel)
    have hless : n - 1 < fuel + 1 := by omega
    exact ih (h.atBreaker (w.breaker.trip p.name ms w.clock)) hn.2 hless
  | count s k ih =>
    obtain ⟨fuel, rfl⟩ := Nat.exists_eq_add_one_of_ne_zero (Nat.ne_zero_of_lt hfuel)
    have hless : n - 1 < fuel + 1 := by omega
    exact ih (h.atCount s) hn.2 hless
  | awaitTurn name k ih =>
    obtain ⟨hsteps, hrest⟩ := hn
    obtain ⟨fuel, rfl⟩ := Nat.exists_eq_add_of_le' (hsteps.trans (Nat.le_of_lt hfuel))
    obtain ⟨used, hused, hrun⟩ := run_awaitTurn henough h name k
    rw [hrun, ih _ (h.grant name) (hrest _) (by omega)]
    rfl
  | place c q k ih =>
    obtain ⟨fuel, rfl⟩ := Nat.exists_eq_add_one_of_ne_zero (Nat.ne_zero_of_lt hfuel)
    have hless : n - 1 < fuel + 1 := by omega
    exact ih _ (h.place c q) (hn.2 _) hless
  | receive c q k ih =>
    obtain ⟨fuel, rfl⟩ := Nat.exists_eq_add_one_of_ne_zero (Nat.ne_zero_of_lt hfuel)
    have hless : n - 1 < fuel + 1 := by omega
    exact ih _ (h.receive c q) (hn.2 _) hless
  | pause ms k ih =>
    obtain ⟨hsteps, hrest⟩ := hn
    obtain ⟨fuel, rfl⟩ := Nat.exists_eq_add_of_le' (hsteps.trans (Nat.le_of_lt hfuel))
    cases ms with
    | zero =>
      have hless : n - 2 < fuel + 2 := by omega
      exact ih h hrest hless
    | succ ms =>
      have hless : n - 2 < fuel := by omega
      have hgoing : (Stage.ready k).isFinished = false := rfl
      have hpassed := ih (h.atPass (ms + 1)) hrest hless
      exact (run_asleep henough hgoing h.patient (Nat.le_add_right _ _)).trans hpassed
  | readClock k ih =>
    obtain ⟨fuel, rfl⟩ := Nat.exists_eq_add_one_of_ne_zero (Nat.ne_zero_of_lt hfuel)
    have hless : n - 1 < fuel + 1 := by omega
    exact ih w.wall h.atReadWall (hn.2 _) hless

end Machine

theorem World.runOne_of_atRest {α : Type} {plan : Plan α} {w : World} {fuel n : Nat} (h : w.AtRest)
    (hn : plan.Takes n) (hfuel : n < fuel) :
    w.runOne plan fuel = (some (plan.exec w).1, (plan.exec w).2) := by
  have hrun : (Machine.start w [plan]).run (fun _ => false) false fuel = _ :=
    Machine.run_solo rfl h hn hfuel
  rw [runOne, hrun]
  rfl

namespace Session

variable {α β : Type} {w w' : World}

theorem bind_of_ok {s : Session α} {a : α} (h : s w = (.ok a, w')) (f : α → Session β) :
    (s >>= f) w = f a w' := by
  change (StateT.bind s (ExceptT.bindCont f)) w = _
  rw [StateT.bind, h]
  rfl

theorem bind_of_error {s : Session α} {halt : Halt} (h : s w = (.error halt, w'))
    (f : α → Session β) : (s >>= f) w = (.error halt, w') := by
  change (StateT.bind s (ExceptT.bindCont f)) w = _
  rw [StateT.bind, h]
  rfl

theorem runOne_of_atRest {plan : Plan (Except Failure α)} {fuel n : Nat} (h : w.AtRest)
    (hn : plan.Takes n) (hfuel : n < fuel) :
    Session.runOne plan fuel w = ((plan.exec w).1.mapError .failure, (plan.exec w).2) := by
  simp only [Session.runOne, ExceptT.mk, World.runOne_of_atRest h hn hfuel]

end Session
end LinkRelay
