import LinkRelay.Proofs.Breaker
import LinkRelay.Proofs.Resolve.Solo
import LinkRelay.Resolve.Resolver
set_option autoImplicit false

/-!
# Circuits that are over

A breaker may still remember circuits whose time is over, or may have forgotten them. Nothing that
is resolved depends on it: in two worlds with the same open circuits, now and later, every call and
every resolution comes to the same answer, and leaves two such worlds.
-/

namespace LinkRelay

open Breaker (AlikeFrom)

/-- Two worlds that differ in circuits that are over, and in nothing else. -/
structure World.Alike (v w : World) : Prop where
  rest : v = { w with breaker := v.breaker }
  circuits : v.breaker.AlikeFrom w.clock w.breaker

namespace World.Alike

variable {v w : World}

theorem exists_breaker (h : Alike v w) :
    ∃ b : Breaker, v = { w with breaker := b } ∧ b.AlikeFrom w.clock w.breaker :=
  ⟨v.breaker, h.rest, h.circuits⟩

theorem clock (h : Alike v w) : v.clock = w.clock := by rw [h.rest]

theorem deadline (h : Alike v w) : v.deadline = w.deadline := by rw [h.rest]

theorem clientsFor (h : Alike v w) (kind : Kind) : v.clientsFor kind = w.clientsFor kind := by
  rw [h.rest]
  rfl

theorem check (h : Alike v w) (name : String) :
    (v.breaker.check name v.clock).1 = (w.breaker.check name w.clock).1 ∧
      Alike { v with breaker := (v.breaker.check name v.clock).2 }
        { w with breaker := (w.breaker.check name w.clock).2 } := by
  obtain ⟨b, rfl, hcircuits⟩ := h.exists_breaker
  obtain ⟨hanswer, hleft⟩ := hcircuits.check name (le_refl w.clock)
  exact ⟨hanswer, ⟨rfl, hleft⟩⟩

theorem trip (h : Alike v w) (name : String) (duration : Nat) :
    Alike { v with breaker := v.breaker.trip name duration v.clock }
      { w with breaker := w.breaker.trip name duration w.clock } := by
  obtain ⟨b, rfl, hcircuits⟩ := h.exists_breaker
  exact ⟨rfl, hcircuits.trip name duration w.clock⟩

theorem count (h : Alike v w) (s : Series) : Alike (v.count s) (w.count s) := by
  obtain ⟨b, rfl, hcircuits⟩ := h.exists_breaker
  exact ⟨rfl, hcircuits⟩

theorem arrive (h : Alike v w) (name : String) (task : Nat) :
    (v.limiter.arrive name task).1 = (w.limiter.arrive name task).1 ∧
      Alike { v with limiter := (v.limiter.arrive name task).2 }
        { w with limiter := (w.limiter.arrive name task).2 } := by
  obtain ⟨b, rfl, hcircuits⟩ := h.exists_breaker
  exact ⟨rfl, rfl, hcircuits⟩

theorem askWindow (h : Alike v w) (window task : Nat) :
    (v.askWindow window task).1 = (w.askWindow window task).1 ∧
      (v.askWindow window task).2.1 = (w.askWindow window task).2.1 ∧
      Alike (v.askWindow window task).2.2 (w.askWindow window task).2.2 := by
  obtain ⟨b, rfl, hcircuits⟩ := h.exists_breaker
  exact ⟨rfl, rfl, rfl, hcircuits⟩

theorem place (h : Alike v w) (client : Nat) (q : Question) :
    (v.place client q).1 = (w.place client q).1 ∧
      Alike (v.place client q).2 (w.place client q).2 := by
  obtain ⟨b, rfl, hcircuits⟩ := h.exists_breaker
  unfold World.place
  dsimp only
  split
  · exact ⟨rfl, rfl, hcircuits⟩
  · exact ⟨rfl, rfl, hcircuits⟩

theorem receive (h : Alike v w) (client : Nat) (q : Question) :
    (v.receive client q).1 = (w.receive client q).1 ∧
      Alike (v.receive client q).2 (w.receive client q).2 := by
  obtain ⟨b, rfl, hcircuits⟩ := h.exists_breaker
  unfold World.receive
  dsimp only
  split
  · exact ⟨rfl, rfl, hcircuits⟩
  · exact ⟨rfl, rfl, hcircuits⟩

theorem readWall (h : Alike v w) :
    v.readWall.1 = w.readWall.1 ∧ Alike v.readWall.2 w.readWall.2 := by
  obtain ⟨b, rfl, hcircuits⟩ := h.exists_breaker
  exact ⟨rfl, rfl, hcircuits⟩

theorem passTo (h : Alike v w) (moment : Nat) :
    Alike { v with clock := max v.clock moment } { w with clock := max w.clock moment } := by
  obtain ⟨b, rfl, hcircuits⟩ := h.exists_breaker
  exact ⟨rfl, hcircuits.mono (le_max_left w.clock moment)⟩

end World.Alike

variable {α : Type}

structure Turn.Alike (t u : Turn α) : Prop where
  stage : t.stage = u.stage
  world : t.world.Alike u.world
  woken : t.woken = u.woken
  wakeAt : t.wakeAt = u.wakeAt

theorem Plan.run_alike (task : Nat) (plan : Plan α) {v w : World} (h : v.Alike w)
    (woken : List Nat) : (plan.run task v woken).Alike (plan.run task w woken) := by
  induction plan generalizing v w woken with
  | done a => exact ⟨rfl, h, rfl, rfl⟩
  | checkCircuit p k ih =>
    obtain ⟨hanswer, hnext⟩ := h.check p.name
    rw [run, run]
    dsimp only
    rw [hanswer]
    exact ih _ hnext woken
  | openCircuit p ms k ih => exact ih (h.trip p.name ms) woken
  | count s k ih => exact ih (h.count s) woken
  | awaitTurn name k ih =>
    obtain ⟨hwindow, harrived⟩ := h.arrive name task
    obtain ⟨hanswer, hfirst, hasked⟩ := harrived.askWindow (w.limiter.arrive name task).1 task
    rw [run, run]
    dsimp only
    rw [hwindow]
    generalize World.askWindow _ _ _ = ours at hanswer hfirst hasked ⊢
    generalize World.askWindow _ _ _ = theirs at hanswer hfirst hasked ⊢
    obtain ⟨answer, first, v'⟩ := ours
    obtain ⟨_, _, w'⟩ := theirs
    obtain rfl := hanswer
    obtain rfl := hfirst
    cases answer with
    | admitted => exact ih _ hasked _
    | neverPossible => exact ih _ hasked _
    | notBefore t =>
      dsimp only
      rw [hasked.clock]
      exact ⟨rfl, hasked, rfl, rfl⟩
    | notFirst => exact ⟨rfl, hasked, rfl, rfl⟩
  | place c q k ih =>
    obtain ⟨hanswer, hnext⟩ := h.place c q
    rw [run, run]
    dsimp only
    rw [hanswer]
    exact ih _ hnext woken
  | receive c q k ih =>
    obtain ⟨hanswer, hnext⟩ := h.receive c q
    rw [run, run]
    dsimp only
    rw [hanswer]
    exact ih _ hnext woken
  | pause ms k ih =>
    cases ms with
    | zero => exact ih h woken
    | succ ms => exact ⟨rfl, h, rfl, by rw [run, run, h.clock]⟩
  | readClock k ih =>
    obtain ⟨hanswer, hnext⟩ := h.readWall
    rw [run, run]
    dsimp only
    rw [hanswer]
    exact ih _ hnext woken

theorem Stage.askAgain_alike (task window : Nat) (name : String) (since : Nat)
    (k : Except Failure Nat → Plan α) {v w : World} (h : v.Alike w) :
    (askAgain task window name since k v).Alike (askAgain task window name since k w) := by
  obtain ⟨hanswer, hfirst, hasked⟩ := h.askWindow window task
  rw [askAgain, askAgain]
  generalize World.askWindow v _ _ = ours at hanswer hfirst hasked ⊢
  generalize World.askWindow w _ _ = theirs at hanswer hfirst hasked ⊢
  obtain ⟨answer, first, v'⟩ := ours
  obtain ⟨_, _, w'⟩ := theirs
  obtain rfl := hanswer
  obtain rfl := hfirst
  cases answer with
  | admitted =>
    dsimp only
    rw [hasked.clock]
    exact Plan.run_alike task _ hasked _
  | neverPossible => exact Plan.run_alike task _ hasked _
  | notBefore t => exact ⟨rfl, hasked, rfl, rfl⟩
  | notFirst => exact ⟨rfl, hasked, rfl, rfl⟩

theorem Stage.resume_alike (task : Nat) (stage : Stage α) {v w : World} (h : v.Alike w) :
    (stage.resume task v).Alike (stage.resume task w) := by
  cases stage with
  | ready plan => exact plan.run_alike task h []
  | inLine window name k =>
    rw [resume, resume, h.clock]
    exact askAgain_alike task window name _ k h
  | atHead window name since k => exact askAgain_alike task window name since k h
  | finished a => exact ⟨rfl, h, rfl, rfl⟩

namespace Machine

structure Alike (m n : Machine α) : Prop where
  world : m.world.Alike n.world
  stages : m.stages = n.stages
  queue : m.queue = n.queue
  timers : m.timers = n.timers
  finishes : m.finishes = n.finishes

variable {m n : Machine α}

theorem Alike.turn (h : Alike m n) (task : Nat) : Alike (m.turn task) (n.turn task) := by
  unfold Machine.turn
  rw [h.stages]
  split
  next => exact h
  next stage hstage =>
    split
    next => exact h
    next =>
      have hturn := stage.resume_alike task h.world
      refine ⟨hturn.world, ?_, ?_, ?_, ?_⟩
      · dsimp only
        rw [hturn.stage]
      · dsimp only
        rw [h.queue, hturn.woken]
      · dsimp only
        rw [h.timers, hturn.wakeAt]
      · dsimp only
        rw [hturn.stage, h.finishes, hturn.world.clock]

theorem Alike.passTo (h : Alike m n) (moment : Nat) : Alike (m.passTo moment) (n.passTo moment) := by
  refine ⟨h.world.passTo moment, h.stages, ?_, ?_, h.finishes⟩
  · rw [Machine.passTo, Machine.passTo, h.queue, h.timers]
  · rw [Machine.passTo, Machine.passTo, h.timers]

theorem Alike.run (enough : List (Finish α) → Bool) (collects : Bool) (fuel : Nat)
    (h : Alike m n) : (m.run enough collects fuel).1 = (n.run enough collects fuel).1 ∧
      Alike (m.run enough collects fuel).2 (n.run enough collects fuel).2 := by
  induction fuel generalizing m n with
  | zero => exact ⟨rfl, h⟩
  | succ fuel ih =>
    have hover : m.isOver = n.isOver := by rw [isOver, isOver, h.stages]
    have hmoment : m.nextMoment? = n.nextMoment? := by rw [nextMoment?, nextMoment?, h.timers]
    rw [Machine.run, Machine.run, h.queue, h.finishes, hover, hmoment, h.world.deadline]
    split
    next task rest hqueue =>
      have hrest : Alike { m with queue := rest, finishes := n.finishes }
          { n with queue := rest } := { h with queue := rfl, finishes := rfl }
      exact ih (hrest.turn task)
    next =>
      split
      next => exact ⟨rfl, h⟩
      next =>
        dsimp only
        split
        next => exact ⟨rfl, h⟩
        next moment _ =>
          split
          next => exact ⟨rfl, h⟩
          next => exact ih (h.passTo moment)

theorem Alike.close (h : Alike m n) (ending : Ending) : (m.close ending).Alike (n.close ending) := by
  obtain ⟨b, hworld, hcircuits⟩ := h.world.exists_breaker
  unfold Machine.close
  rw [h.stages, hworld]
  dsimp only
  split
  next d _ => exact ⟨rfl, hcircuits.mono (le_max_left _ d)⟩
  next => exact ⟨rfl, hcircuits⟩

theorem alike_start {v w : World} (h : v.Alike w) (plans : List (Plan α)) :
    Alike (start v plans) (start w plans) :=
  ⟨h, rfl, rfl, rfl, rfl⟩

end Machine

namespace World.Alike

variable {v w : World}

theorem runOne (h : Alike v w) (plan : Plan α) (fuel : Nat) :
    (v.runOne plan fuel).1 = (w.runOne plan fuel).1 ∧
      Alike (v.runOne plan fuel).2 (w.runOne plan fuel).2 := by
  obtain ⟨hending, hrun⟩ := (Machine.alike_start h [plan]).run (fun _ => false) false fuel
  unfold World.runOne
  generalize (Machine.start v [plan]).run _ _ _ = ours at hending hrun ⊢
  generalize (Machine.start w [plan]).run _ _ _ = theirs at hending hrun ⊢
  obtain ⟨ending, m⟩ := ours
  obtain ⟨_, n⟩ := theirs
  obtain rfl := hending
  cases ending with
  | settled => exact ⟨by dsimp only; rw [hrun.finishes], hrun.close .settled⟩
  | abandoned => exact ⟨rfl, hrun.close .abandoned⟩

theorem runAll (h : Alike v w) (plans : List (Plan α)) (enough : List (Finish α) → Bool)
    (fuel : Nat) : (v.runAll plans enough fuel).1 = (w.runAll plans enough fuel).1 ∧
      Alike (v.runAll plans enough fuel).2 (w.runAll plans enough fuel).2 := by
  obtain ⟨hending, hrun⟩ := (Machine.alike_start h plans).run enough true fuel
  unfold World.runAll
  rw [h.deadline, h.clock]
  split
  · exact ⟨rfl, h⟩
  · generalize (Machine.start v plans).run _ _ _ = ours at hending hrun ⊢
    generalize (Machine.start w plans).run _ _ _ = theirs at hending hrun ⊢
    obtain ⟨ending, m⟩ := ours
    obtain ⟨_, n⟩ := theirs
    obtain rfl := hending
    cases ending with
    | settled => exact ⟨by dsimp only; rw [hrun.finishes], hrun.close .settled⟩
    | abandoned => exact ⟨rfl, hrun.close .abandoned⟩

end World.Alike

namespace Session

variable {β : Type}

/-- A session comes to the same answer in two worlds, and leaves worlds that differ in circuits
    that are over. -/
def AlikeIn (s : Session α) (v w : World) : Prop := (s v).1 = (s w).1 ∧ (s v).2.Alike (s w).2

def Overlooks (s : Session α) : Prop := ∀ ⦃v w : World⦄, v.Alike w → s.AlikeIn v w

namespace Overlooks

theorem pure (a : α) : Overlooks (Pure.pure a : Session α) := fun _ _ h => ⟨rfl, h⟩

theorem fail (f : Failure) : Overlooks (Session.fail f : Session α) := fun _ _ h => ⟨rfl, h⟩

theorem bind {s : Session α} {f : α → Session β} (h : Overlooks s) (hf : ∀ a, Overlooks (f a)) :
    Overlooks (s >>= f) := by
  intro v w hworlds
  obtain ⟨hanswer, hleft⟩ := h hworlds
  unfold AlikeIn
  rcases hv : s v with ⟨ours, v'⟩
  rcases hw : s w with ⟨theirs, w'⟩
  rw [hv, hw] at hanswer hleft
  obtain rfl : ours = theirs := hanswer
  cases ours with
  | error halt =>
    rw [bind_of_error hv, bind_of_error hw]
    exact ⟨rfl, hleft⟩
  | ok a =>
    rw [bind_of_ok hv, bind_of_ok hw]
    exact hf a hleft

theorem runOne (plan : Plan (Except Failure α)) (fuel : Nat) :
    Overlooks (Session.runOne plan fuel) := by
  intro v w h
  obtain ⟨hanswer, hleft⟩ := h.runOne plan fuel
  simp only [AlikeIn, Session.runOne, ExceptT.mk]
  generalize v.runOne plan fuel = ours at hanswer hleft ⊢
  generalize w.runOne plan fuel = theirs at hanswer hleft ⊢
  obtain ⟨answer, v'⟩ := ours
  obtain ⟨_, w'⟩ := theirs
  obtain rfl := hanswer
  cases answer <;> exact ⟨rfl, hleft⟩

theorem runAll (plans : List (Plan α)) (enough : List (Finish α) → Bool) (fuel : Nat) :
    Overlooks (Session.runAll plans enough fuel) := by
  intro v w h
  obtain ⟨hanswer, hleft⟩ := h.runAll plans enough fuel
  simp only [AlikeIn, Session.runAll, ExceptT.mk]
  generalize v.runAll plans enough fuel = ours at hanswer hleft ⊢
  generalize w.runAll plans enough fuel = theirs at hanswer hleft ⊢
  obtain ⟨answer, v'⟩ := ours
  obtain ⟨_, w'⟩ := theirs
  obtain rfl := hanswer
  cases answer <;> exact ⟨rfl, hleft⟩

theorem ofWorld {f : World → Session α} (hsame : ∀ v w : World, v.Alike w → f v = f w)
    (hf : ∀ w, Overlooks (f w)) : Overlooks (get >>= f) := by
  intro v w h
  have hrun (u : World) : (get >>= f) u = f u u := rfl
  unfold AlikeIn
  rw [hrun, hrun, hsame v w h]
  exact hf w h

theorem resolve (policy : RetryPolicy) (key : Key) : Overlooks (policy.resolve key) := by
  refine ofWorld (fun v w h => ?_) fun w => (runAll _ _ _).bind fun finishes => ?_
  · dsimp only
    rw [h.clientsFor]
  · split
    · exact fail _
    · exact pure _

theorem clientOf? (key : Key) (p : Provider) : Overlooks (LinkRelay.clientOf? key p) := by
  refine ofWorld (fun v w h => ?_) fun w => pure _
  rw [h.clientsFor]

theorem call (policy : RetryPolicy) (key : Key) (p : Provider)
    (plan : Nat → Plan CallResult) : Overlooks (do
      match ← LinkRelay.clientOf? key p with
      | none => return .notCached
      | some client => Session.runOne (plan client) (policy.turnsFor 1)) := by
  refine (clientOf? key p).bind fun client => ?_
  split
  · exact pure _
  · exact runOne _ _

theorem resolveProvider (policy : RetryPolicy) (key : Key) (p : Provider) :
    Overlooks (policy.resolveProvider key p) :=
  call policy key p fun client => policy.resolveCall key (client, p)

theorem refreshFile (policy : RetryPolicy) (key : Key) (file : CachedFile) :
    Overlooks (policy.refreshFile key file) :=
  call policy key file.provider (policy.refreshCall key file)

end Overlooks
end Session

end LinkRelay
