import LinkRelay.Proofs.Resolve.Steps
import LinkRelay.Proofs.Resolve.Views
set_option autoImplicit false

/-!
# Calls among other calls

A call among others is foretold when it stands where it would stand if it ran alone, at the same
moment of the clock and seeing the same. Its own steps keep it so, and so do the steps of calls to
other providers over other clients.
-/

namespace LinkRelay

open RetryPolicy (AlikeResults)

namespace World

variable {p p' : Provider} {client client' : Nat} {v w w' : World}

structure Agrees (p : Provider) (client : Nat) (v w : World) : Prop extends Sees p client v w where
  window : v.limiter.present p.name = w.limiter.present p.name

theorem Agrees.rfl : Agrees p client w w := ⟨.rfl, Eq.refl _⟩

/-- Whether calls to two providers over two clients have nothing in common. -/
structure Apart (w : World) (p : Provider) (client : Nat) (p' : Provider) (client' : Nat) :
    Prop where
  providers : p ≠ p'
  clients : client ≠ client'
  wires : w.wired client = false ∨ w.wired client' = false

theorem Apart.symm (h : w.Apart p client p' client') : w.Apart p' client' p client :=
  ⟨h.providers.symm, h.clients.symm, h.wires.symm⟩

theorem Apart.name_ne (h : w.Apart p client p' client') : p.name ≠ p'.name :=
  fun hname => h.providers (Provider.name_injective hname)

theorem Agrees.frame (h : Agrees p client v w) (hspares : Spares p' client' w w')
    (happart : w.Apart p client p' client') : Agrees p client v w' :=
  ⟨h.toSees.frame hspares happart.providers happart.clients happart.wires,
    h.window.trans (hspares.windows happart.name_ne).symm⟩

theorem place_limiter (w : World) (client : Nat) (q : Question) :
    (w.place client q).2.limiter = w.limiter := by
  obtain ⟨clients, hw⟩ := w.place_eq client q
  rw [hw]

theorem place_clock (w : World) (client : Nat) (q : Question) :
    (w.place client q).2.clock = w.clock := by
  obtain ⟨clients, hw⟩ := w.place_eq client q
  rw [hw]

theorem receive_limiter (w : World) (client : Nat) (q : Question) :
    (w.receive client q).2.limiter = w.limiter := by
  obtain ⟨n, clients, wire, hw⟩ := w.receive_eq client q
  rw [hw]

theorem receive_clock (w : World) (client : Nat) (q : Question) :
    (w.receive client q).2.clock = w.clock := by
  obtain ⟨n, clients, wire, hw⟩ := w.receive_eq client q
  rw [hw]

theorem Agrees.place (h : Agrees p client v w) (q : Question) :
    Agrees p client (v.place client q).2 (w.place client q).2 := by
  refine ⟨(h.toSees.place q).2, ?_⟩
  rw [place_limiter, place_limiter]
  exact h.window

theorem Agrees.receive (h : Agrees p client v w) (q : Question) :
    Agrees p client (v.receive client q).2 (w.receive client q).2 := by
  refine ⟨(h.toSees.receive q).2, ?_⟩
  rw [receive_limiter, receive_limiter]
  exact h.window

theorem Sees.put (h : Sees p client v w) (hv : v.limiter.Sound) (hw : w.limiter.Sound)
    (window : Window) (clock : Nat) :
    Agrees p client { v with clock, limiter := v.limiter.put p.name window }
      { w with limiter := w.limiter.put p.name window } :=
  ⟨{ h with }, (hv.present_put p.name window).trans (hw.present_put p.name window).symm⟩

theorem askWindow_of_get? {name : String} {n : Nat} (hsound : w.limiter.Sound)
    (hn : w.limiter.current.get? name = some n) (task : Nat) :
    w.askWindow n task =
      (((w.limiter.present name).ask task w.clock).1,
        ((w.limiter.present name).ask task w.clock).2.first?,
        { w with
          limiter := w.limiter.put name ((w.limiter.present name).ask task w.clock).2 }) := by
  have hwindow : w.limiter.window name = (n, w.limiter) := by rw [Limiter.window, hn]
  rw [askWindow, Limiter.ask, hsound.windows_eq hn]
  dsimp only
  rw [Limiter.put, Limiter.number, hwindow]

end World

def Pace.due (now : Nat) : Pace → Option Nat
  | .atOnce => some now
  | .later moment => some moment
  | .asleep => none

def Pace.waits : Pace → Nat
  | .later _ => 1
  | .atOnce | .asleep => 0

/-- How a call stands that comes to the same as alone: its stage, the moment at which it can go on,
    and how many steps are left. -/
inductive Foretold (p : Provider) (client task : Nat) (alone : CallResult × World) (w : World) :
    Stage CallResult → Option Nat → Nat → Prop
  | ready {plan plan' : Plan CallResult} {v : World} {n : Nat}
    (hplan : Plan.Twin p client AlikeResults plan plan') (hagrees : World.Agrees p client v w)
    (hrest : v.AtRest) (hend : plan.exec v = alone) (hsteps : plan'.Takes n) :
    Foretold p client task alone w (.ready plan') (some v.clock) (n + 1)
  | atHead {plan : Plan CallResult} {k : Except Failure Nat → Plan CallResult} {v : World}
    {n number since : Nat}
    (hplan : Plan.Twin p client AlikeResults plan (k (.ok (v.clock - since))))
    (hsees : World.Sees p client v w) (hnumber : w.limiter.current.get? p.name = some number)
    (hheld : (w.limiter.present p.name).Held task)
    (hask : (w.limiter.present p.name).ask task v.clock = (.admitted, v.limiter.present p.name))
    (hrest : v.AtRest) (hend : plan.exec v = alone) (hsteps : ∀ r, (k r).Takes n) :
    Foretold p client task alone w (.atHead number p.name since k) (some v.clock) (n + 2)
  | finished {result : CallResult} (halike : AlikeResults alone.1 result)
    (hagrees : World.Agrees p client alone.2 w) :
    Foretold p client task alone w (.finished result) none 0

/-- A step of a call that stays foretold, with fewer steps left than there were. -/
structure Foretells (p : Provider) (client task : Nat) (alone : CallResult × World) (w : World)
    (left : Nat) (move : Move CallResult) : Prop where
  quiet : move.woken = []
  spares : World.Spares p client w move.world
  ahead {moment : Nat} (h : move.pace.due w.clock = some moment) : w.clock ≤ moment
  foretold : ∃ less, less + move.pace.waits < left ∧
    Foretold p client task alone move.world move.stage (move.pace.due w.clock) less

namespace Foretold

variable {p p' : Provider} {client client' task n left : Nat} {alone : CallResult × World}
variable {v v' w w' : World} {plan plan' : Plan CallResult} {stage : Stage CallResult}
variable {due : Option Nat}

theorem frame (h : Foretold p client task alone w stage due left)
    (hspares : World.Spares p' client' w w') (happart : w.Apart p client p' client') :
    Foretold p client task alone w' stage due left := by
  cases h with
  | ready hplan hagrees hrest hend hsteps =>
    exact .ready hplan (hagrees.frame hspares happart) hrest hend hsteps
  | atHead hplan hsees hnumber hheld hask hrest hend hsteps =>
    have hsees' := hsees.frame hspares happart.providers happart.clients happart.wires
    rw [← hspares.numbers happart.name_ne] at hnumber
    rw [← hspares.windows happart.name_ne] at hheld hask
    exact .atHead hplan hsees' hnumber hheld hask hrest hend hsteps
  | finished halike hagrees => exact .finished halike (hagrees.frame hspares happart)

theorem atClock (h : Foretold p client task alone w stage due left) (clock : Nat) :
    Foretold p client task alone { w with clock } stage due left := by
  cases h with
  | ready hplan hagrees hrest hend hsteps => exact .ready hplan { hagrees with } hrest hend hsteps
  | atHead hplan hsees hnumber hheld hask hrest hend hsteps =>
    exact .atHead hplan { hsees with } hnumber hheld hask hrest hend hsteps
  | finished halike hagrees => exact .finished halike { hagrees with }

theorem due_of_going (h : Foretold p client task alone w stage due left)
    (hgoing : stage.isFinished = false) : ∃ moment, due = some moment := by
  cases h with
  | ready => exact ⟨_, rfl⟩
  | atHead => exact ⟨_, rfl⟩
  | finished => cases hgoing

theorem going_of_due {moment : Nat} (h : Foretold p client task alone w stage (some moment) left) :
    stage.isFinished = false := by
  cases h <;> rfl

theorem foretells_atOnce (hspares : World.Spares p client w w')
    (hplan : Plan.Twin p client AlikeResults plan plan') (hrest : v.AtRest)
    (hagrees : World.Agrees p client v w') (hclock : v.clock = w.clock)
    (hend : plan.exec v = alone) (hsteps : plan'.Takes n) (hless : n + 1 < left) :
    Foretells p client task alone w left ⟨.ready plan', w', [], .atOnce⟩ where
  quiet := rfl
  spares := hspares
  ahead h := Nat.le_of_eq (Option.some.inj h)
  foretold := by
    refine ⟨n + 1, hless, ?_⟩
    rw [Pace.due, ← hclock]
    exact .ready hplan hagrees hrest hend hsteps

theorem foretells_awaitTurn {k k' : Except Failure Nat → Plan CallResult}
    (hplan : ∀ r, Plan.Twin p client AlikeResults (k r) (k' r))
    (hagrees : World.Agrees p client v w) (hclock : v.clock = w.clock) (hrest : v.AtRest)
    (hend : (Plan.awaitTurn p.name k).exec v = alone) (hsteps : (Plan.awaitTurn p.name k').Takes n)
    (hsound : w.limiter.Sound) :
    Foretells p client task alone w (n + 1) ((Plan.awaitTurn p.name k').move task w) := by
  obtain ⟨hthree, hsteps⟩ := hsteps
  have hidle := hrest.limiter.resting p.name
  have hadmitted := hrest.grant p.name
  have hjoined := hidle.join task w.clock
  have hsame := hagrees.toSees.put hrest.limiter.toSound hsound
  change (k (v.grant p.name).1).exec (v.grant p.name).2 = alone at hend
  rw [Plan.move, hsound.arrive_eq]
  dsimp only
  rw [w.askWindow_put hsound, ← hagrees.window]
  generalize ((v.limiter.present p.name).join task).ask task w.clock = answer at hjoined
  cases hjoined with
  | refused hquota =>
    rw [World.grant_of_zero hquota] at hend hadmitted
    rw [show (v.limiter.present p.name).first? = none from congrArg List.head? hidle.idle]
    exact foretells_atOnce (World.spares_put hsound _) (hplan _) hadmitted (hsame _ _) hclock hend
      (hsteps _) (by omega)
  | admitted hquota hturn =>
    rw [World.grant_of_pos hquota, hclock, hturn] at hend hadmitted
    rw [Nat.sub_self] at hend
    rw [show ((v.limiter.present p.name).grant w.clock).first? = none from
      congrArg List.head? hidle.idle]
    exact foretells_atOnce (World.spares_put hsound _) (hplan _) hadmitted (hsame _ _) rfl hend
      (hsteps _) (by omega)
  | held hquota hturn hlater =>
    rw [World.grant_of_pos hquota, hclock] at hend hadmitted
    generalize (v.limiter.present p.name).turn w.clock = moment at hend hadmitted hturn hlater
    refine ⟨rfl, World.spares_put hsound _, ?_, n - 3 + 2, ?_, ?_⟩
    · intro t ht
      cases ht
      exact Nat.le_of_lt hturn
    · change n - 3 + 2 + 1 < n + 1
      omega
    · let held := (v.limiter.present p.name).held task w.clock
      let later : World := { v with
        clock := moment
        limiter := v.limiter.put p.name ((v.limiter.present p.name).grant moment) }
      let waiting : World := { w with limiter := w.limiter.put p.name held }
      have hsees : World.Sees p client later waiting := { hagrees.toSees with }
      have hput := hsound.put p.name held
      have hask : (waiting.limiter.present p.name).ask task later.clock =
          (.admitted, later.limiter.present p.name) := by
        rw [hput.present_eq, hrest.limiter.toSound.present_put]
        exact hlater
      have hheld : (waiting.limiter.present p.name).Held task := by
        rw [hput.present_eq]
        exact hidle.held task w.clock
      exact .atHead (hplan _) hsees hput.number hheld hask hadmitted hend hsteps

theorem step (h : Foretold p client task alone w stage due left) (hsound : w.limiter.Sound)
    (hdue : due = some w.clock) : Foretells p client task alone w left (stage.move task w) := by
  cases h with
  | @ready plan plan' v n hplan hagrees hrest hend hsteps =>
    have hclock : v.clock = w.clock := Option.some.inj hdue
    have hsees := hagrees.toSees
    cases hplan with
    | done hresult =>
      obtain rfl : _ = alone := hend
      exact ⟨rfl, World.spares_rfl hsound, nofun, 0, Nat.succ_pos n, .finished hresult hagrees⟩
    | @checkCircuit k k' hplan =>
      obtain ⟨hone, hsteps⟩ := hsteps
      obtain ⟨hopen, hsees'⟩ := hsees.check hclock
      change (k (v.breaker.check p.name v.clock).1).exec _ = alone at hend
      rw [hopen] at hend
      exact foretells_atOnce (World.spares_check hsound) (hplan _) (hrest.atBreaker _)
        ⟨hsees', hagrees.window⟩ hclock hend (hsteps _) (by omega)
    | openCircuit hplan =>
      obtain ⟨hone, hsteps⟩ := hsteps
      exact foretells_atOnce (World.spares_trip hsound _) hplan (hrest.atBreaker _)
        ⟨hsees.trip hclock _, hagrees.window⟩ hclock hend hsteps (by omega)
    | count hs hplan =>
      obtain ⟨hone, hsteps⟩ := hsteps
      exact foretells_atOnce (World.spares_count hsound hs) hplan (hrest.atCount _)
        ⟨hsees.count _, hagrees.window⟩ hclock hend hsteps (by omega)
    | awaitTurn hplan => exact foretells_awaitTurn hplan hagrees hclock hrest hend hsteps hsound
    | @place q k k' hplan =>
      obtain ⟨hone, hsteps⟩ := hsteps
      obtain ⟨hdelay, -⟩ := hsees.place q
      change (k (v.place client q).1).exec (v.place client q).2 = alone at hend
      rw [hdelay] at hend
      exact foretells_atOnce (World.spares_place hsound q) (hplan _) (hrest.place client q)
        (hagrees.place q) ((v.place_clock client q).trans hclock) hend (hsteps _) (by omega)
    | @receive q k k' hplan =>
      -- the two answers need not be equal: the files in them may have been listed at other moments
      obtain ⟨hone, hsteps⟩ := hsteps
      obtain ⟨hanswer, -⟩ := hsees.receive q
      exact foretells_atOnce (World.spares_receive hsound q) (hplan _ _ hanswer)
        (hrest.receive client q) (hagrees.receive q) ((v.receive_clock client q).trans hclock) hend
        (hsteps _) (by omega)
    | @pause ms k k' hplan =>
      obtain ⟨htwo, hsteps⟩ := hsteps
      cases ms with
      | zero =>
        exact foretells_atOnce (World.spares_rfl hsound) hplan hrest hagrees hclock hend hsteps
          (by omega)
      | succ ms =>
        refine ⟨rfl, World.spares_rfl hsound, ?_, n - 2 + 1, ?_, ?_⟩
        · intro t ht
          cases ht
          exact Nat.le_add_right _ _
        · change n - 2 + 1 + 1 < n + 1
          omega
        · change Foretold p client task alone w (.ready k') (some (w.clock + (ms + 1))) (n - 2 + 1)
          rw [← hclock]
          have hagrees' : World.Agrees p client (v.pass (ms + 1)) w := { hagrees with }
          exact .ready hplan hagrees' (hrest.atPass _) hend hsteps
  | @atHead plan k v n number since hplan hsees hnumber hheld hask hrest hend hsteps =>
    have hclock : v.clock = w.clock := Option.some.inj hdue
    have hidle : (v.limiter.present p.name).first? = none :=
      congrArg List.head? (hrest.limiter.resting p.name).idle
    rw [hclock] at hask hplan
    rw [Stage.move, Stage.moveAgain, World.askWindow_of_get? hsound hnumber, hask]
    dsimp only
    rw [hidle]
    have hagrees : World.Agrees p client v
        { w with limiter := w.limiter.put p.name (v.limiter.present p.name) } :=
      ⟨{ hsees with }, (hsound.present_put p.name _).symm⟩
    exact foretells_atOnce (World.spares_put hsound _) hplan hrest hagrees hclock hend (hsteps _)
      (by omega)
  | finished => cases hdue

end Foretold

end LinkRelay
