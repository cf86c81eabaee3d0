import LinkRelay.Proofs.Resolve.Quotas
set_option autoImplicit false

/-!
# How long tasks stay at a window

A lobby is a machine with notes about the tasks that come to windows: when a task came, whom it
found in line there, and when it first asked with nobody before it. Tasks of any kind may come at
any moment, go on in any order, and be dropped. The time that a task is told when it is let in is
the one since it was first in line; `Lobby.Kept` is the invariant that carries this.
-/

namespace LinkRelay

theorem Window.first?_leave {w : Window} {caller other : Caller} (h : w.first? = some other)
    (hother : other ≠ caller) : (w.leave caller).first? = some other := by
  obtain ⟨rest, hline⟩ := List.head?_eq_some_iff.1 h
  rw [first?, leave, hline, List.erase_cons_tail (by simpa using hother)]
  rfl

namespace Stage

variable {α : Type}

def acquiring? : Stage α → Option (Stage (Except Failure Nat))
  | .ready (.awaitTurn name _) => some (.ready (.awaitTurn name .done))
  | .inLine number name _ => some (.inLine number name .done)
  | .atHead number name since _ => some (.atHead number name since .done)
  | _ => none

def told? (task : Nat) (w : World) (stage : Stage α) : Option (Except Failure Nat) :=
  stage.acquiring?.bind fun alone =>
    match (alone.move task w).stage with
    | .ready (.done answer) => some answer
    | _ => none

variable {task : Nat} {w : World} {stage : Stage α} {name : String}
variable {k : Except Failure Nat → Plan α}

theorem exists_acquiring (task : Nat) (w : World) (h : stage.atWindow? = some (name, k)) :
    ∃ alone, stage.acquiring? = some alone ∧ alone.atWindow? = some (name, .done) ∧
      alone.finds task w.limiter name = stage.finds task w.limiter name ∧
      alone.since w.clock = stage.since w.clock ∧
      (stage.Placed w.limiter → alone.Placed w.limiter) := by
  cases stage with
  | ready plan =>
    cases plan with
    | awaitTurn =>
      cases h
      exact ⟨_, rfl, rfl, rfl, rfl, id⟩
    | _ => cases h
  | inLine | atHead =>
    cases h
    exact ⟨_, rfl, rfl, rfl, rfl, id⟩
  | finished a => cases h

theorem told?_eq (hsound : w.limiter.Sound) (hplaced : stage.Placed w.limiter)
    (h : stage.atWindow? = some (name, k)) : stage.told? task w =
      match ((stage.finds task w.limiter name).ask task w.clock).1 with
      | .admitted => some (.ok (w.clock - stage.since w.clock))
      | .neverPossible => some (.error (.internal (.zeroQuota name)))
      | .notBefore _ | .notFirst => none := by
  obtain ⟨alone, halone, hwindow, hfinds, hsince, hplaced'⟩ := exists_acquiring task w h
  rw [told?, halone, Option.bind_some, move_eq_asking hsound (hplaced' hplaced) hwindow, hfinds,
    hsince, Move.asking]
  rcases (stage.finds task w.limiter name).ask task w.clock with ⟨_ | _ | _ | _, window⟩ <;> rfl

/-- What a task at a window can come to in its next step: what it is told, and its move. -/
inductive Asks (task : Nat) (w : World) (name : String) (k : Except Failure Nat → Plan α)
    (stage : Stage α) : Option (Except Failure Nat) → Move α → Prop
  | behind (hfirst : (stage.finds task w.limiter name).first? ≠ some task) :
    Asks task w name k stage none ⟨.inLine (w.limiter.number name) name k,
      { w with limiter := w.limiter.put name (stage.finds task w.limiter name) }, [], .asleep⟩
  | refused {window : Window} (hfirst : (stage.finds task w.limiter name).first? = some task)
    (hline : window.line = (stage.finds task w.limiter name).line.erase task) :
    Asks task w name k stage (some (.error (.internal (.zeroQuota name))))
      ⟨.ready (k (.error (.internal (.zeroQuota name)))),
        { w with limiter := w.limiter.put name window }, window.first?.toList, .atOnce⟩
  | admitted {window : Window} (hfirst : (stage.finds task w.limiter name).first? = some task)
    (hline : window.line = (stage.finds task w.limiter name).line.erase task) :
    Asks task w name k stage (some (.ok (w.clock - stage.since w.clock)))
      ⟨.ready (k (.ok (w.clock - stage.since w.clock))),
        { w with limiter := w.limiter.put name window }, window.first?.toList, .atOnce⟩
  | held {window : Window} {moment : Nat}
    (hfirst : (stage.finds task w.limiter name).first? = some task)
    (hline : window.line = (stage.finds task w.limiter name).line) :
    Asks task w name k stage none
      ⟨.atHead (w.limiter.number name) name (stage.since w.clock) k,
        { w with limiter := w.limiter.put name window }, [], .later moment⟩

theorem asks (task : Nat) (hsound : w.limiter.Sound) (hplaced : stage.Placed w.limiter)
    (h : stage.atWindow? = some (name, k)) :
    stage.Asks task w name k (stage.told? task w) (stage.move task w) := by
  rw [told?_eq hsound hplaced h, move_eq_asking hsound hplaced h, Move.asking]
  by_cases hfirst : (stage.finds task w.limiter name).first? = some task
  · rcases Window.ask_cases hfirst w.clock with ⟨-, hask⟩ | ⟨-, hask⟩ | ⟨-, -, hask⟩ <;> rw [hask]
    · exact .refused hfirst rfl
    · exact .admitted hfirst rfl
    · exact .held hfirst rfl
  · rw [Window.ask_behind hfirst]
    exact .behind hfirst

theorem move_aside (task : Nat) (w : World) (h : stage.atWindow? = none) :
    (stage.move task w).world.limiter = w.limiter ∧ (stage.move task w).stage.name? = none ∧
      stage.told? task w = none := by
  cases stage with
  | ready plan =>
    cases plan with
    | awaitTurn => cases h
    | place c q k => exact ⟨w.place_limiter c q, rfl, rfl⟩
    | receive c q k => exact ⟨w.receive_limiter c q, rfl, rfl⟩
    | pause ms k => cases ms <;> exact ⟨rfl, rfl, rfl⟩
    | _ => exact ⟨rfl, rfl, rfl⟩
  | inLine | atHead => cases h
  | finished a => exact ⟨rfl, rfl, rfl⟩

structure Lines (l : Limiter) (task : Nat) (stage : Stage α) (l' : Limiter) : Prop where
  sound : l'.Sound
  placed : stage.Placed l'
  others {other : Stage α} (h : other.Placed l) : other.Placed l'
  distinct (name : String) : (l'.present name).line.Nodup
  own {name : String} (h : task ∈ (l'.present name).line) : stage.name? = some name
  lined {other : Nat} {name : String} (hother : other ≠ task)
    (h : other ∈ (l'.present name).line) : other ∈ (l.present name).line
  heads {other : Nat} {name : String} (hother : other ≠ task)
    (h : (l.present name).first? = some other) : (l'.present name).first? = some other
  head {number since : Nat} {name : String} {k : Except Failure Nat → Plan α}
    (h : stage = .atHead number name since k) : (l'.present name).first? = some task

section Lines

variable {l : Limiter} {stage' : Stage α}

theorem lines_aside (hsound : l.Sound) (hdistinct : ∀ name, (l.present name).line.Nodup)
    (hnew : ∀ name, task ∉ (l.present name).line) (hstage : stage.name? = none) :
    Lines l task stage l where
  sound := hsound
  placed := by
    cases stage with
    | ready | finished => exact trivial
    | inLine | atHead => cases hstage
  others := id
  distinct := hdistinct
  own h := absurd h (hnew _)
  lined _ h := h
  heads _ h := h
  head h := by
    subst h
    cases hstage

theorem lines_put (hsound : l.Sound) (hdistinct : ∀ name, (l.present name).line.Nodup)
    (honly : ∀ other, task ∈ (l.present other).line → other = name) {window : Window}
    (hplaced : stage.Placed (l.put name window)) (hnodup : window.line.Nodup)
    (hown : task ∈ window.line → stage.name? = some name)
    (hlined : ∀ other, other ≠ task → other ∈ window.line → other ∈ (l.present name).line)
    (hheads : ∀ other, other ≠ task → (l.present name).first? = some other →
      window.first? = some other)
    (hhead : ∀ number name' since k, stage = .atHead number name' since k →
      name' = name ∧ window.first? = some task) : Lines l task stage (l.put name window) := by
  have hput := hsound.put name window
  have hpresent := hput.present_eq
  have helsewhere {other : String} (hother : other ≠ name) := hput.others hother
  refine ⟨hput.sound, hplaced, fun h => h.put hsound name window, fun other => ?_,
    fun {other} h => ?_, fun {task' other} hother h => ?_, fun {task' other} hother h => ?_,
    fun {_ _ name' _} h => ?_⟩
  · by_cases hname : other = name
    · rw [hname, hpresent]
      exact hnodup
    · exact helsewhere hname ▸ hdistinct other
  · by_cases hname : other = name
    · subst hname
      exact hown (hpresent ▸ h)
    · exact absurd (honly other (helsewhere hname ▸ h)) hname
  · by_cases hname : other = name
    · subst hname
      exact hlined task' hother (hpresent ▸ h)
    · exact helsewhere hname ▸ h
  · by_cases hname : other = name
    · subst hname
      exact hpresent.symm ▸ hheads task' hother h
    · exact (helsewhere hname).symm ▸ h
  · obtain ⟨rfl, hfirst⟩ := hhead _ _ _ _ h
    exact hpresent.symm ▸ hfirst

theorem finds_line (hdistinct : ∀ name, (l.present name).line.Nodup)
    (hown : ∀ other, task ∈ (l.present other).line → stage.name? = some other) (name : String) :
    (stage.finds task l name).line.Nodup ∧
      (∀ other, other ≠ task → other ∈ (stage.finds task l name).line →
        other ∈ (l.present name).line) ∧
      ∀ other, (l.present name).first? = some other →
        (stage.finds task l name).first? = some other := by
  cases stage with
  | ready plan =>
    have hnew : task ∉ (l.present name).line := fun h => nomatch hown name h
    refine ⟨?_, fun other hother h => ?_, fun other h => ?_⟩
    · refine List.nodup_append.2 ⟨hdistinct name, List.nodup_singleton _, ?_⟩
      rintro other hother _ htask rfl
      exact hnew (List.mem_singleton.1 htask ▸ hother)
    · exact (List.mem_append.1 h).resolve_right fun h => hother (List.mem_singleton.1 h)
    · obtain ⟨rest, hline⟩ := List.head?_eq_some_iff.1 h
      rw [finds, Window.first?_join (by rw [hline]; exact List.cons_ne_nil _ _), h]
  | inLine | atHead | finished => exact ⟨hdistinct name, fun _ _ h => h, fun _ h => h⟩

theorem Asks.lines {told : Option (Except Failure Nat)} {move : Move α}
    (hasks : stage.Asks task w name k told move) (hsound : w.limiter.Sound)
    (hdistinct : ∀ name, (w.limiter.present name).line.Nodup)
    (hown : ∀ other, task ∈ (w.limiter.present other).line → stage.name? = some other)
    (h : stage.atWindow? = some (name, k)) :
    Lines w.limiter task move.stage move.world.limiter := by
  obtain ⟨hnodup, hlined, hheads⟩ := finds_line hdistinct hown name
  have honly : ∀ other, task ∈ (w.limiter.present other).line → other = name := by
    intro other hline
    have hname := hown other hline
    cases stage with
    | ready | finished => cases hname
    | inLine | atHead =>
      cases h
      exact (Option.some.inj hname).symm
  have hnumber (window : Window) := (hsound.put name window).number
  -- a task that is told something was first, and has left the line
  have htold {window : Window} {plan : Plan α}
      (hfirst : (stage.finds task w.limiter name).first? = some task)
      (hline : window.line = (stage.finds task w.limiter name).line.erase task) :
      Lines w.limiter task (.ready plan) (w.limiter.put name window) := by
    refine lines_put hsound hdistinct honly trivial (hline ▸ hnodup.erase _) (fun hmem => ?_)
      (fun other hother hmem => hlined other hother (List.mem_of_mem_erase (hline ▸ hmem)))
      (fun other hother h => ?_) nofun
    · rw [hline] at hmem
      exact absurd hmem hnodup.not_mem_erase
    · exact absurd (Option.some.inj ((hheads other h).symm.trans hfirst)) hother
  cases hasks with
  | behind hfirst =>
    exact lines_put hsound hdistinct honly (hnumber _) hnodup (fun _ => rfl) hlined
      (fun other _ h => hheads other h) nofun
  | refused hfirst hline => exact htold hfirst hline
  | admitted hfirst hline => exact htold hfirst hline
  | held hfirst hline =>
    have hsame := congrArg List.head? hline
    refine lines_put hsound hdistinct honly (hnumber _) (hline ▸ hnodup) (fun _ => rfl)
      (fun other hother hmem => hlined other hother (hline ▸ hmem))
      (fun other _ h => hsame.trans (hheads other h)) fun _ _ _ _ h => ?_
    cases h
    exact ⟨rfl, hsame.trans hfirst⟩

end Lines

end Stage

/-- What is noted about a task at a window. -/
structure Stay where
  name : String
  came : Nat
  ahead : List Nat
  first : Option Nat

namespace Stay

def begun (name : String) (now : Nat) (line : List Nat) : Stay :=
  ⟨name, now, line, if line = [] then some now else none⟩

def reached (s : Stay) (now : Nat) : Stay := { s with first := some (s.first.getD now) }

structure Behind (s : Stay) (name : String) (now : Nat) : Prop where
  name : s.name = name
  first : s.first = none
  came : s.came ≤ now
  ahead : s.ahead ≠ []

structure FirstSince (s : Stay) (name : String) (since now : Nat) : Prop where
  name : s.name = name
  first : s.first = some since
  came : s.came ≤ since
  past : since ≤ now
  alone (h : s.ahead = []) : since = s.came

variable {s : Stay} {name : String} {since now later : Nat}

theorem Behind.mono (h : s.Behind name now) (hle : now ≤ later) : s.Behind name later :=
  { h with came := h.came.trans hle }

theorem FirstSince.mono (h : s.FirstSince name since now) (hle : now ≤ later) :
    s.FirstSince name since later :=
  { h with past := h.past.trans hle }

theorem firstSince_begun (name : String) (now : Nat) :
    (begun name now []).FirstSince name now now :=
  ⟨rfl, by simp [begun], Nat.le_refl _, Nat.le_refl _, fun _ => rfl⟩

theorem behind_begun (name : String) (now : Nat) {line : List Nat} (h : line ≠ []) :
    (begun name now line).Behind name now :=
  ⟨rfl, if_neg h, Nat.le_refl _, h⟩

theorem Behind.reached (h : s.Behind name now) : (s.reached now).FirstSince name now now :=
  ⟨h.name, by rw [Stay.reached, h.first, Option.getD_none], h.came, Nat.le_refl _,
    fun hnone => absurd hnone h.ahead⟩

theorem FirstSince.reached (h : s.FirstSince name since now) : s.reached now = s := by
  obtain ⟨name, came, ahead, first⟩ := s
  obtain rfl : first = some since := h.first
  rfl

end Stay

namespace Stage

variable {α : Type} {task now later : Nat} {w : World} {stage : Stage α} {name : String}
variable {k : Except Failure Nat → Plan α} {old : Option Stay}

def stay? (task : Nat) (w : World) (old : Option Stay) : Stage α → Option Stay
  | .ready (.awaitTurn name _) => some (.begun name w.clock (w.limiter.present name).line)
  | .inLine _ name _ | .atHead _ name _ _ =>
    if (w.limiter.present name).first? = some task then old.map (·.reached w.clock) else old
  | _ => none

inductive Stays (now : Nat) : Stage α → Option Stay → Prop
  | ready {plan : Plan α} {s : Option Stay} : Stays now (.ready plan) s
  | finished {a : α} {s : Option Stay} : Stays now (.finished a) s
  | inLine {number : Nat} {name : String} {k : Except Failure Nat → Plan α} {s : Stay}
    (h : s.Behind name now) : Stays now (.inLine number name k) (some s)
  | atHead {number since : Nat} {name : String} {k : Except Failure Nat → Plan α} {s : Stay}
    (h : s.FirstSince name since now) : Stays now (.atHead number name since k) (some s)

theorem Stays.mono (h : stage.Stays now old) (hle : now ≤ later) : stage.Stays later old := by
  cases h with
  | ready => exact .ready
  | finished => exact .finished
  | inLine h => exact .inLine (h.mono hle)
  | atHead h => exact .atHead (h.mono hle)

theorem Stays.first (h : stage.Stays w.clock old)
    (hown : ∀ other, task ∈ (w.limiter.present other).line → stage.name? = some other)
    (hwindow : stage.atWindow? = some (name, k))
    (hfirst : (stage.finds task w.limiter name).first? = some task) :
    ∃ s, stage.stay? task w old = some s ∧ s.FirstSince name (stage.since w.clock) w.clock := by
  cases h with
  | @ready plan =>
    cases plan with
    | awaitTurn =>
      cases hwindow
      have hline : (w.limiter.present name).line = [] := by
        by_contra hline
        have hmem := List.mem_of_head? ((Window.first?_join hline task).symm.trans hfirst)
        cases hown name hmem
      refine ⟨_, rfl, ?_⟩
      rw [hline]
      exact Stay.firstSince_begun name w.clock
    | _ => cases hwindow
  | finished => cases hwindow
  | @inLine _ _ _ s h =>
    cases hwindow
    exact ⟨s.reached w.clock, if_pos hfirst, h.reached⟩
  | @atHead _ _ _ _ s h =>
    cases hwindow
    exact ⟨s.reached w.clock, if_pos hfirst, h.reached.symm ▸ h⟩

/-- Whoever asks behind somebody has always done so: the first in line stays first. -/
theorem Stays.behind (h : stage.Stays w.clock old)
    (hhead : ∀ number since, stage = .atHead number name since k →
      (w.limiter.present name).first? = some task)
    (hwindow : stage.atWindow? = some (name, k))
    (hfirst : (stage.finds task w.limiter name).first? ≠ some task) :
    ∃ s, stage.stay? task w old = some s ∧ s.Behind name w.clock := by
  cases h with
  | @ready plan =>
    cases plan with
    | awaitTurn =>
      cases hwindow
      refine ⟨_, rfl, Stay.behind_begun name w.clock fun hline => hfirst ?_⟩
      rw [finds, Window.first?, Window.join, hline]
      rfl
    | _ => cases hwindow
  | finished => cases hwindow
  | @inLine _ _ _ s h =>
    cases hwindow
    exact ⟨s, if_neg hfirst, h⟩
  | atHead h =>
    cases hwindow
    exact absurd (hhead _ _ rfl) hfirst

end Stage

structure Grant where
  task : Nat
  stay : Stay
  moment : Nat
  told : Nat

/-- A grant whose task was told how long it had been first in line, and nothing of the time that it
    stood behind others. -/
def Grant.IsTimely (g : Grant) : Prop :=
  ∃ first, g.stay.FirstSince g.stay.name first g.moment ∧ g.told = g.moment - first

inductive Decision {α : Type} (task now : Nat) (name : String) (k : Except Failure Nat → Plan α) :
    Option Grant → Stage α → Prop
  | admitted {g : Grant} (htask : g.task = task) (hname : g.stay.name = name)
    (hmoment : g.moment = now) (htimely : g.IsTimely) :
    Decision task now name k (some g) (.ready (k (.ok g.told)))
  | refused : Decision task now name k none (.ready (k (.error (.internal (.zeroQuota name)))))
  | behind {number : Nat} : Decision task now name k none (.inLine number name k)
  | held {number since : Nat} : Decision task now name k none (.atHead number name since k)

structure Lobby (α : Type) where
  machine : Machine α
  gone : List Nat
  stays : Nat → Option Stay
  grants : List Grant

namespace Lobby

variable {α : Type}

def opened (w : World) : Lobby α := ⟨.start w [], [], fun _ => none, []⟩

def atMachine (l : Lobby α) (m : Machine α) : Lobby α := { l with machine := m }

def grant? (l : Lobby α) (task : Nat) (stage : Stage α) : Option Grant :=
  match stage.stay? task l.machine.world (l.stays task), stage.told? task l.machine.world with
  | some stay, some (.ok told) => some ⟨task, stay, l.machine.world.clock, told⟩
  | _, _ => none

def go (l : Lobby α) (task : Nat) (stage : Stage α) : Lobby α :=
  let w := l.machine.world
  { machine := l.machine.moved task (stage.move task w)
    gone := l.gone
    stays := Function.update l.stays task (stage.stay? task w (l.stays task))
    grants := l.grants ++ (l.grant? task stage).toList }

def drop (l : Lobby α) (task : Nat) (stage : Stage α) : Lobby α :=
  match stage.window? with
  | none => { l with gone := task :: l.gone }
  | some window =>
    let m := l.machine
    let (next, limiter) := m.world.limiter.leave window task
    { l with
      machine := { m with world := { m.world with limiter }, queue := m.queue ++ next.toList }
      gone := task :: l.gone }

/-- A step in a lobby where some plans may be carried out. -/
inductive Step (allows : Plan α → Prop) (l : Lobby α) : Lobby α → Prop
  | enter {plans : List (Plan α)} (hplans : ∀ plan ∈ plans, allows plan) :
    Step allows l (l.atMachine (l.machine.enter plans))
  | go {task : Nat} {stage : Stage α} (hqueue : task ∈ l.machine.queue)
    (hstage : l.machine.stages[task]? = some stage) (hgoing : stage.isFinished = false)
    (hhere : task ∉ l.gone) : Step allows l (l.go task stage)
  | drop {task : Nat} {stage : Stage α} (hstage : l.machine.stages[task]? = some stage) :
    Step allows l (l.drop task stage)
  | skip {task : Nat} {rest : List Nat} (hqueue : l.machine.queue = task :: rest)
    (hdone : ∀ stage, l.machine.stages[task]? = some stage → stage.isFinished = true) :
    Step allows l (l.atMachine { l.machine with queue := rest })
  | pass (moment : Nat) : Step allows l (l.atMachine (l.machine.passTo moment))
  /-- Other parts of the program do their work. None of them counts waits. -/
  | outside {w : World} (hclock : w.clock = l.machine.world.clock)
    (hlimiter : w.limiter = l.machine.world.limiter) (hwaits : ∀ p,
      w.metrics.count (.heldBack p) = l.machine.world.metrics.count (.heldBack p)) :
    Step allows l (l.atMachine { l.machine with world := w })

inductive Run (allows : Plan α → Prop) (l : Lobby α) : Lobby α → Prop
  | refl : Run allows l l
  | step {l' l'' : Lobby α} (hrun : Run allows l l') (hstep : Step allows l' l'') :
    Run allows l l''

/-- The invariant: each task stands in the line of the window at which it asks and nowhere else,
    and waits there as is noted. -/
structure Kept (l : Lobby α) : Prop where
  sound : l.machine.world.limiter.Sound
  placed {stage : Stage α} (h : stage ∈ l.machine.stages) : stage.Placed l.machine.world.limiter
  distinct (name : String) : (l.machine.world.limiter.present name).line.Nodup
  lined {task : Nat} {name : String} (h : task ∈ (l.machine.world.limiter.present name).line) :
    ∃ stage, l.machine.stages[task]? = some stage ∧ stage.name? = some name
  head {task number since : Nat} {name : String} {k : Except Failure Nat → Plan α}
    (h : l.machine.stages[task]? = some (.atHead number name since k)) (hhere : task ∉ l.gone) :
    (l.machine.world.limiter.present name).first? = some task
  stays {task : Nat} {stage : Stage α} (h : l.machine.stages[task]? = some stage) :
    stage.Stays l.machine.world.clock (l.stays task)
  grants {g : Grant} (h : g ∈ l.grants) : g.IsTimely

variable {allows : Plan α → Prop} {l l' : Lobby α} {task : Nat} {stage : Stage α} {w : World}

theorem drop_machine (l : Lobby α) (task : Nat) (stage : Stage α) :
    (l.drop task stage).machine.stages = l.machine.stages ∧
      (l.drop task stage).machine.world.metrics = l.machine.world.metrics ∧
      (l.drop task stage).grants = l.grants := by
  unfold drop
  split <;> exact ⟨rfl, rfl, rfl⟩

theorem grant?_of_aside (h : stage.atWindow? = none) : l.grant? task stage = none := by
  obtain ⟨-, -, htold⟩ := Stage.move_aside task l.machine.world h
  rw [grant?, htold]
  cases stage.stay? task l.machine.world (l.stays task) <;> rfl

namespace Kept

theorem opened (hrest : w.limiter.AtRest) : (opened w : Lobby α).Kept where
  sound := hrest.toSound
  placed := nofun
  distinct name := (hrest.resting name).idle ▸ List.nodup_nil
  lined {task name} h := by
    change task ∈ (w.limiter.present name).line at h
    rw [(hrest.resting name).idle] at h
    cases h
  head := nofun
  stays := nofun
  grants := nofun

theorem own (h : l.Kept) (hstage : l.machine.stages[task]? = some stage) (name : String)
    (hline : task ∈ (l.machine.world.limiter.present name).line) : stage.name? = some name := by
  obtain ⟨stage', hstage', hname⟩ := h.lined hline
  obtain rfl : stage = stage' := Option.some.inj (hstage.symm.trans hstage')
  exact hname

theorem lines (h : l.Kept) (hstage : l.machine.stages[task]? = some stage) :
    Stage.Lines l.machine.world.limiter task (stage.move task l.machine.world).stage
      (stage.move task l.machine.world).world.limiter := by
  have hown := h.own hstage
  have hplaced := h.placed (List.mem_of_getElem? hstage)
  cases hwindow : stage.atWindow? with
  | none =>
    obtain ⟨hlimiter, hname, -⟩ := Stage.move_aside task l.machine.world hwindow
    rw [hlimiter]
    refine Stage.lines_aside h.sound h.distinct (fun name hline => ?_) hname
    have hname := hown name hline
    cases stage with
    | ready | finished => cases hname
    | inLine | atHead => cases hwindow
  | some window =>
    exact (Stage.asks task h.sound hplaced hwindow).lines h.sound h.distinct hown hwindow

theorem decision (h : l.Kept) (hstage : l.machine.stages[task]? = some stage)
    (hhere : task ∉ l.gone) {name : String} {k : Except Failure Nat → Plan α}
    (hwindow : stage.atWindow? = some (name, k)) :
    Decision task l.machine.world.clock name k (l.grant? task stage)
        (stage.move task l.machine.world).stage ∧
      (stage.move task l.machine.world).stage.Stays l.machine.world.clock
        (stage.stay? task l.machine.world (l.stays task)) ∧
      ∃ limiter, (stage.move task l.machine.world).world = { l.machine.world with limiter } := by
  have hstays := h.stays hstage
  have hfirstSince := hstays.first (h.own hstage) hwindow
  have hasks := Stage.asks task h.sound (h.placed (List.mem_of_getElem? hstage)) hwindow
  rw [grant?]
  generalize stage.told? task l.machine.world = told at hasks ⊢
  generalize stage.move task l.machine.world = move at hasks ⊢
  cases hasks with
  | behind hfirst =>
    obtain ⟨s, hs, hbehind⟩ := hstays.behind
      (fun number since hhead => h.head (hhead ▸ hstage) hhere) hwindow hfirst
    rw [hs]
    exact ⟨.behind, .inLine hbehind, _, rfl⟩
  | refused hfirst =>
    obtain ⟨s, hs, -⟩ := hfirstSince hfirst
    rw [hs]
    exact ⟨.refused, .ready, _, rfl⟩
  | admitted hfirst =>
    obtain ⟨s, hs, hsince⟩ := hfirstSince hfirst
    rw [hs]
    exact ⟨.admitted (g := ⟨task, s, _, _⟩) rfl hsince.name rfl ⟨_, hsince.name ▸ hsince, rfl⟩,
      .ready, _, rfl⟩
  | held hfirst =>
    obtain ⟨s, hs, hsince⟩ := hfirstSince hfirst
    rw [hs]
    exact ⟨.held, .atHead hsince, _, rfl⟩

theorem stays_go (h : l.Kept) (hstage : l.machine.stages[task]? = some stage)
    (hhere : task ∉ l.gone) :
    (stage.move task l.machine.world).stage.Stays l.machine.world.clock
        (stage.stay? task l.machine.world (l.stays task)) ∧
      ∀ g ∈ l.grant? task stage, g.IsTimely := by
  cases hwindow : stage.atWindow? with
  | none =>
    obtain ⟨-, hname, -⟩ := Stage.move_aside task l.machine.world hwindow
    refine ⟨?_, fun g hg => ?_⟩
    · cases hmove : (stage.move task l.machine.world).stage with
      | ready => exact .ready
      | finished => exact .finished
      | inLine | atHead =>
        rw [hmove] at hname
        cases hname
    · rw [grant?_of_aside hwindow] at hg
      cases hg
  | some window =>
    obtain ⟨hdecision, hstays, -⟩ := h.decision hstage hhere hwindow
    refine ⟨hstays, fun g hg => ?_⟩
    rw [Option.mem_def] at hg
    rw [hg] at hdecision
    generalize (stage.move task l.machine.world).stage = stage' at hdecision
    cases hdecision with
    | admitted _ _ _ htimely => exact htimely

theorem go (h : l.Kept) (hstage : l.machine.stages[task]? = some stage) (hhere : task ∉ l.gone) :
    (l.go task stage).Kept := by
  have htask := (List.getElem?_eq_some_iff.1 hstage).1
  have hlines := h.lines hstage
  obtain ⟨hstays, hgrants⟩ := h.stays_go hstage hhere
  have hclock := (Stage.goes task h.sound (h.placed (List.mem_of_getElem? hstage))).clock
  have hset {other : Nat} {stage' : Stage α}
      (hstage' : (l.machine.stages.set task (stage.move task l.machine.world).stage)[other]? =
        some stage') :
      other = task ∧ stage' = (stage.move task l.machine.world).stage ∨
        other ≠ task ∧ l.machine.stages[other]? = some stage' := by
    by_cases hother : other = task
    · rw [hother, List.getElem?_set_self htask] at hstage'
      exact .inl ⟨hother, (Option.some.inj hstage').symm⟩
    · rw [List.getElem?_set_ne (Ne.symm hother)] at hstage'
      exact .inr ⟨hother, hstage'⟩
  refine ⟨hlines.sound, fun hmem => ?_, hlines.distinct, fun {other name} hline => ?_,
    fun {other _ _ _ _} hhead hother => ?_, fun {other stage'} hstage' => ?_, fun {g} hg => ?_⟩
  · rcases List.mem_or_eq_of_mem_set hmem with hmem | rfl
    · exact hlines.others (h.placed hmem)
    · exact hlines.placed
  · change ∃ stage', (l.machine.stages.set task _)[other]? = some stage' ∧ _
    by_cases hother : other = task
    · subst hother
      exact ⟨_, List.getElem?_set_self htask, hlines.own hline⟩
    · obtain ⟨stage', hstage', hname⟩ := h.lined (hlines.lined hother hline)
      exact ⟨stage', (List.getElem?_set_ne (Ne.symm hother)).trans hstage', hname⟩
  · rcases hset hhead with ⟨rfl, hsame⟩ | ⟨hne, hhead⟩
    · exact hlines.head hsame.symm
    · exact hlines.heads hne (h.head hhead hother)
  · change stage'.Stays (stage.move task l.machine.world).world.clock
      ((l.go task stage).stays other)
    rw [hclock, Lobby.go]
    dsimp only
    rcases hset hstage' with ⟨rfl, rfl⟩ | ⟨hne, hstage'⟩
    · rw [Function.update_self]
      exact hstays
    · rw [Function.update_of_ne hne]
      exact h.stays hstage'
  · rcases List.mem_append.1 hg with hg | hg
    · exact h.grants hg
    · exact hgrants g (Option.mem_toList.1 hg)

theorem drop (h : l.Kept) (hstage : l.machine.stages[task]? = some stage) :
    (l.drop task stage).Kept := by
  have hplaced := h.placed (List.mem_of_getElem? hstage)
  unfold Lobby.drop
  cases hwindow : stage.window? with
  | none =>
    exact ⟨h.sound, h.placed, h.distinct, h.lined,
      fun hhead hhere => h.head hhead fun hgone => hhere (List.mem_cons_of_mem _ hgone),
      h.stays, h.grants⟩
  | some number =>
    obtain ⟨name, hnumber⟩ : ∃ name,
        l.machine.world.limiter.current.get? name = some number := by
      cases stage with
      | ready | finished => cases hwindow
      | inLine | atHead =>
        cases hwindow
        exact ⟨_, hplaced⟩
    have hleft := h.sound.leave_eq hnumber task
    have hput := h.sound.put name ((l.machine.world.limiter.present name).leave task)
    rw [← hleft] at hput
    -- nobody is in the line at a window afterwards who was not, and only the task has left it
    have hlines (name' : String) :
        ((l.machine.world.limiter.leave number task).2.present name').line.Sublist
            (l.machine.world.limiter.present name').line ∧
          ∀ other, other ≠ task → (l.machine.world.limiter.present name').first? = some other →
            ((l.machine.world.limiter.leave number task).2.present name').first? = some other := by
      by_cases hname : name' = name
      · rw [hname, hput.present_eq]
        exact ⟨List.erase_sublist, fun other hother hfirst => Window.first?_leave hfirst hother⟩
      · rw [hput.others hname]
        exact ⟨List.Sublist.refl _, fun _ _ hfirst => hfirst⟩
    refine ⟨hput.sound, fun hmem => ?_, fun name' => (h.distinct name').sublist (hlines name').1,
      fun hline => h.lined ((hlines _).1.subset hline), fun {other _ _ _ _} hhead hhere => ?_,
      h.stays, h.grants⟩
    · change Stage.Placed (l.machine.world.limiter.leave number task).2 _
      rw [hleft]
      exact (h.placed hmem).put h.sound _ _
    · obtain ⟨hother, hhere⟩ := not_or.1 fun hmem => hhere (List.mem_cons.2 hmem)
      exact (hlines _).2 other hother (h.head hhead hhere)

theorem enter (h : l.Kept) (plans : List (Plan α)) :
    (l.atMachine (l.machine.enter plans)).Kept where
  sound := h.sound
  placed hmem := by
    rcases List.mem_append.1 hmem with hmem | hmem
    · exact h.placed hmem
    · obtain ⟨plan, -, rfl⟩ := List.mem_map.1 hmem
      exact trivial
  distinct := h.distinct
  lined hline := by
    obtain ⟨stage, hstage, hname⟩ := h.lined hline
    exact ⟨stage, (List.getElem?_append_left (List.getElem?_eq_some_iff.1 hstage).1).trans hstage,
      hname⟩
  head hhead := by
    rcases Machine.stages_enter hhead with hhead | ⟨-, plan, -, hready⟩
    · exact h.head hhead
    · cases hready
  stays hstage := by
    rcases Machine.stages_enter hstage with hstage | ⟨-, plan, -, rfl⟩
    · exact h.stays hstage
    · exact .ready
  grants := h.grants

theorem step (h : l.Kept) (hstep : l.Step allows l') : l'.Kept := by
  cases hstep with
  | enter => exact h.enter _
  | go _ hstage _ hhere => exact h.go hstage hhere
  | drop hstage => exact h.drop hstage
  | skip => exact ⟨h.sound, h.placed, h.distinct, h.lined, h.head, h.stays, h.grants⟩
  | pass moment =>
    exact ⟨h.sound, h.placed, h.distinct, h.lined, h.head,
      fun hstage => (h.stays hstage).mono (Nat.le_max_left _ _), h.grants⟩
  | @outside w hclock hlimiter _ =>
    refine ⟨?_, fun hmem => ?_, fun name => ?_, fun {_ name} hline => ?_,
      fun {_ _ _ name _} hhead hhere => ?_, fun hstage => ?_, h.grants⟩
    · exact hlimiter.symm ▸ h.sound
    · exact hlimiter.symm ▸ h.placed hmem
    · exact hlimiter.symm ▸ h.distinct name
    · exact h.lined (hlimiter ▸ hline)
    · exact hlimiter.symm ▸ h.head hhead hhere
    · exact hclock.symm ▸ h.stays hstage

theorem run (hrest : w.limiter.AtRest) (hrun : (Lobby.opened w).Run allows l) : l.Kept := by
  induction hrun with
  | refl => exact opened hrest
  | step _ hstep ih => exact ih.step hstep

end Kept
end Lobby
end LinkRelay
