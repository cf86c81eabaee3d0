import LinkRelay.Proofs.Resolve.Solo
import LinkRelay.Resolve.Resolver
set_option autoImplicit false

/-!
# Calls leave the store alone

However a machine carries out its plans, and wherever it is left off, the store stays as it is.
-/

namespace LinkRelay

variable {α : Type}

theorem Plan.run_store (task : Nat) (plan : Plan α) (w : World) (woken : List Nat) :
    (plan.run task w woken).world.store = w.store := by
  induction plan generalizing w woken with
  | done a => rfl
  | checkCircuit p k ih => exact ih _ _ _
  | openCircuit p ms k ih => exact ih _ _
  | count s k ih => exact ih _ _
  | awaitTurn name k ih =>
    have hstore : (({ w with limiter := (w.limiter.arrive name task).2 } : World).askWindow
      (w.limiter.arrive name task).1 task).2.2.store = w.store := rfl
    rw [Plan.run]
    dsimp only
    generalize ({ w with limiter := (w.limiter.arrive name task).2 } : World).askWindow
      (w.limiter.arrive name task).1 task = answer at hstore ⊢
    obtain ⟨_ | _ | _ | t, next, v⟩ := answer
    · exact hstore
    · exact (ih _ _ _).trans hstore
    · exact (ih _ _ _).trans hstore
    · exact hstore
  | place c q k ih => exact (ih _ _ _).trans (w.onward_place c q).store
  | receive c q k ih => exact (ih _ _ _).trans (w.onward_receive c q).store
  | pause ms k ih =>
    cases ms with
    | zero => exact ih _ _
    | succ ms => rfl
  | readClock k ih => exact ih _ _ _

theorem Stage.askAgain_store (task window : Nat) (name : String) (since : Nat)
    (k : Except Failure Nat → Plan α) (w : World) :
    (askAgain task window name since k w).world.store = w.store := by
  have hstore : (w.askWindow window task).2.2.store = w.store := rfl
  rw [askAgain]
  generalize w.askWindow window task = answer at hstore ⊢
  obtain ⟨_ | _ | _ | t, next, v⟩ := answer
  · exact hstore
  · exact (Plan.run_store ..).trans hstore
  · exact (Plan.run_store ..).trans hstore
  · exact hstore

theorem Stage.resume_store (task : Nat) (w : World) (stage : Stage α) :
    (stage.resume task w).world.store = w.store := by
  cases stage with
  | ready plan => exact plan.run_store task w []
  | inLine window name k => exact askAgain_store ..
  | atHead window name since k => exact askAgain_store ..
  | finished a => rfl

namespace Machine

theorem turn_store (m : Machine α) (task : Nat) : (m.turn task).world.store = m.world.store := by
  unfold turn
  split
  · rfl
  · split
    · rfl
    · exact Stage.resume_store ..

theorem run_store (enough : List (Finish α) → Bool) (collects : Bool) (fuel : Nat)
    (m : Machine α) : (m.run enough collects fuel).2.world.store = m.world.store := by
  induction fuel generalizing m with
  | zero => rfl
  | succ fuel ih =>
    rw [run]
    split
    · exact (ih _).trans (turn_store ..)
    · split
      · rfl
      · dsimp only
        split
        · rfl
        · split
          · rfl
          · exact ih _

theorem close_store (m : Machine α) (ending : Ending) : (m.close ending).store = m.world.store := by
  unfold close
  dsimp only
  split <;> rfl

end Machine

theorem World.runOne_store (w : World) (plan : Plan α) (fuel : Nat) :
    (w.runOne plan fuel).2.store = w.store := by
  have hrun := (Machine.start w [plan]).run_store (fun _ => false) false fuel
  unfold runOne
  split
  all_goals
    rename_i m hm
    rw [hm] at hrun
    exact (m.close_store _).trans hrun

theorem World.runAll_store (w : World) (plans : List (Plan α)) (enough : List (Finish α) → Bool)
    (fuel : Nat) : (w.runAll plans enough fuel).2.store = w.store := by
  have hrun := (Machine.start w plans).run_store enough true fuel
  unfold runAll
  split
  · rfl
  · split
    all_goals
      rename_i m hm
      rw [hm] at hrun
      exact (m.close_store _).trans hrun

namespace Session

variable {β : Type} {J : Store → Prop}

/-- A session that keeps what holds of the store, however it ends. -/
def Keeps (J : Store → Prop) (s : Session α) : Prop := ∀ w : World, J w.store → J (s w).2.store

namespace Keeps

theorem bind {s : Session α} {f : α → Session β} (h : Keeps J s) (hf : ∀ a, Keeps J (f a)) :
    Keeps J (s >>= f) := by
  intro w hw
  have hkept := h w hw
  rcases hs : s w with ⟨halt | a, v⟩
  · rw [bind_of_error hs]
    rw [hs] at hkept
    exact hkept
  · rw [bind_of_ok hs]
    rw [hs] at hkept
    exact hf a v hkept

theorem of_store {s : Session α} (h : ∀ w, (s w).2.store = w.store) : Keeps J s :=
  fun w hw => (h w).symm ▸ hw

theorem pure (a : α) : Keeps J (Pure.pure a : Session α) := of_store fun _ => rfl

theorem fail (f : Failure) : Keeps J (Session.fail f : Session α) := of_store fun _ => rfl

theorem ofExcept (r : Except Failure α) : Keeps J (Session.ofExcept r) := by
  cases r with
  | ok a => exact pure a
  | error f => exact fail f

theorem talk (t : Http.OnWire α) : Keeps J (Session.talk t) := of_store fun _ => rfl

theorem count (s : Series) : Keeps J (Session.count s) := of_store fun _ => rfl

theorem records (path : String) : Keeps J (Session.records path) := of_store fun _ => rfl

theorem isStale (r : Record) : Keeps J (Session.isStale r) := of_store fun _ => rfl

theorem attempt {s : Session α} (h : Keeps J s) : Keeps J (s.attempt.run : Session _) := by
  intro w hw
  have hkept := h w hw
  change J (Session.attempt s w).2.store
  unfold Session.attempt
  simp only [ExceptT.mk]
  split <;> (rename_i heq; rw [heq] at hkept; exact hkept)

theorem onStore {f : Store → Except Failure α × Store} (h : ∀ s, J s → J (f s).2) :
    Keeps J (Session.onStore f) :=
  fun w hw => h w.store hw

theorem runOne (plan : Plan (Except Failure α)) (fuel : Nat) :
    Keeps J (Session.runOne plan fuel) := by
  refine of_store fun w => ?_
  have hrun := w.runOne_store plan fuel
  simp only [Session.runOne, ExceptT.mk]
  split <;> (rename_i heq; rw [heq] at hrun; exact hrun)

theorem runAll (plans : List (Plan α)) (enough : List (Finish α) → Bool) (fuel : Nat) :
    Keeps J (Session.runAll plans enough fuel) := by
  refine of_store fun w => ?_
  have hrun := w.runAll_store plans enough fuel
  simp only [Session.runAll, ExceptT.mk]
  split <;> (rename_i heq; rw [heq] at hrun; exact hrun)

theorem world : Keeps J (get : Session World) := of_store fun _ => rfl

theorem resolve (policy : RetryPolicy) (key : Key) : Keeps J (policy.resolve key) := by
  refine world.bind fun w => (runAll _ _ _).bind fun finishes => ?_
  split
  · exact fail _
  · exact pure _

theorem call (policy : RetryPolicy) (key : Key) (p : Provider)
    (plan : Nat → Plan CallResult) : Keeps J (do
      match ← clientOf? key p with
      | none => return .notCached
      | some client => Session.runOne (plan client) (policy.turnsFor 1)) := by
  refine (world.bind fun w => pure _).bind fun client => ?_
  split
  · exact pure _
  · exact runOne _ _

theorem resolveProvider (policy : RetryPolicy) (key : Key) (p : Provider) :
    Keeps J (policy.resolveProvider key p) :=
  call policy key p fun client => policy.resolveCall key (client, p)

theorem refreshFile (policy : RetryPolicy) (key : Key) (file : CachedFile) :
    Keeps J (policy.refreshFile key file) :=
  call policy key file.provider (policy.refreshCall key file)

end Keeps
end Session

end LinkRelay
