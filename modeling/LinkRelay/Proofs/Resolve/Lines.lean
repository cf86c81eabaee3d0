import LinkRelay.Proofs.Resolve.Answers
set_option autoImplicit false

/-!
# Standing in line together

A task that is not finished can go on, waits for a moment, or stands in line behind another task.
Whoever is admitted wakes the next in line, and whoever is first is told a moment at which there is
room. `Machine.Orderly` is the invariant: no task is forgotten in a line, and each of its own steps
brings a task closer to its end.
-/

namespace LinkRelay

namespace Window

variable {w : Window} {caller : Caller} {now moment : Nat}

theorem HasRoom.later (h : w.HasRoom moment) (hle : moment ≤ now) : w.HasRoom now := by
  unfold HasRoom
  rw [← prune_prune hle]
  exact Nat.lt_of_le_of_lt (length_prune_le _ _) h

theorem le_turn (hquota : 0 < w.limit.quota) : now ≤ w.turn now := by
  by_cases hroom : (w.prune now).admitted.length < w.limit.quota
  · rw [turn, if_pos hroom]
  · exact Nat.le_of_lt (lt_turn hroom hquota)

theorem hasRoom_turn (hwithin : w.admitted.length ≤ w.limit.quota) (hquota : 0 < w.limit.quota)
    (now : Nat) : (w.prune now).HasRoom (w.turn now) := by
  unfold HasRoom
  rw [prune_prune (le_turn hquota)]
  exact length_prune_turn hwithin hquota

theorem ask_join (hline : w.line = []) (hquota : 0 < w.limit.quota) :
    (w.join caller).ask caller now =
      if w.HasRoom now then (.admitted, w.admitFirst now)
      else (.notBefore (w.turn now), w.holdFirst caller now) := by
  obtain ⟨limit, admitted, line⟩ := w
  subst hline
  exact ask_first (show [caller] = caller :: [] from rfl) hquota

theorem tail_of_first (hdistinct : w.line.Nodup)
    (hfirst : ∀ other, w.first? = some other → other = caller) :
    caller ∉ w.line.tail ∧ ∀ other, other ≠ caller → other ∈ w.line → other ∈ w.line.tail := by
  cases hline : w.line with
  | nil => exact ⟨List.not_mem_nil, fun _ _ h => h⟩
  | cons first rest =>
    obtain rfl : first = caller := hfirst first (congrArg List.head? hline)
    rw [hline, List.nodup_cons] at hdistinct
    exact ⟨hdistinct.1, fun other hother h => (List.mem_cons.1 h).resolve_left hother⟩

theorem first?_join (hline : w.line ≠ []) (caller : Caller) :
    (w.join caller).first? = w.first? :=
  List.head?_append_of_ne_nil _ hline

theorem ask_behind (h : w.first? ≠ some caller) : w.ask caller now = (.notFirst, w) := if_pos h

end Window

namespace Limiter

/-- A limiter at none of whose windows anybody stands in line twice, or too many were admitted. -/
structure Tidy (l : Limiter) : Prop extends Sound l where
  distinct (name : String) : (l.present name).line.Nodup
  within (name : String) : (l.present name).admitted.length ≤ (l.present name).limit.quota

theorem AtRest.tidy {l : Limiter} (h : l.AtRest) : l.Tidy where
  toSound := h.toSound
  distinct name := (h.resting name).idle ▸ List.nodup_nil
  within name := (h.resting name).within

theorem Tidy.put {l : Limiter} (h : l.Tidy) (name : String) {w : Window} (hdistinct : w.line.Nodup)
    (hwithin : w.admitted.length ≤ w.limit.quota) : (l.put name w).Tidy := by
  have hput := h.toSound.put name w
  refine ⟨hput.sound, fun other => ?_, fun other => ?_⟩ <;> by_cases hother : other = name
  · rw [hother, hput.present_eq]
    exact hdistinct
  · rw [hput.others hother]
    exact h.distinct other
  · rw [hother, hput.present_eq]
    exact hwithin
  · rw [hput.others hother]
    exact h.within other

end Limiter

namespace Stage

variable {α : Type}

def name? : Stage α → Option String
  | .inLine _ name _ | .atHead _ name .. => some name
  | _ => none

/-- How a task stands: its stage, the moment from which it can go on, and how many steps are left
    to it. -/
inductive Stands (l : Limiter) (task : Nat) : Stage α → Option Nat → Nat → Prop
  | ready {plan : Plan α} {moment n : Nat} (hsteps : plan.Takes n) :
    Stands l task (.ready plan) (some moment) (n + 1)
  | atHead {number since moment n : Nat} {name : String} {k : Except Failure Nat → Plan α}
    (hfirst : (l.present name).first? = some task) (hroom : (l.present name).HasRoom moment)
    (hsteps : ∀ r, (k r).Takes n) :
    Stands l task (.atHead number name since k) (some moment) (n + 2)
  | woken {number moment n : Nat} {name : String} {k : Except Failure Nat → Plan α}
    (hfirst : (l.present name).first? = some task) (hsteps : ∀ r, (k r).Takes n) :
    Stands l task (.inLine number name k) (some moment) (n + 3)
  | behind {number n : Nat} {name : String} {k : Except Failure Nat → Plan α}
    (hline : task ∈ (l.present name).line) (hfirst : (l.present name).first? ≠ some task)
    (hsteps : ∀ r, (k r).Takes n) :
    Stands l task (.inLine number name k) none (n + 3)
  | finished {a : α} : Stands l task (.finished a) none 0

variable {l l' : Limiter} {task other left : Nat} {stage : Stage α} {due : Option Nat}
variable {name : String}

theorem Stands.behind_of_name (h : stage.Stands l task due left) (hname : stage.name? = some name)
    (hfirst : (l.present name).first? ≠ some task) :
    due = none ∧ ∀ moment, (l'.present name).first? = some task →
      stage.Stands l' task (some moment) left := by
  cases h with
  | ready | finished => cases hname
  | atHead hfirst' | woken hfirst' =>
    cases hname
    exact absurd hfirst' hfirst
  | behind hline hfirst' hsteps =>
    cases hname
    exact ⟨rfl, fun moment hfirst => .woken hfirst hsteps⟩

theorem Stands.congr (h : stage.Stands l task due left)
    (hsame : ∀ name, stage.name? = some name → l'.present name = l.present name) :
    stage.Stands l' task due left := by
  cases h with
  | ready hsteps => exact .ready hsteps
  | finished => exact .finished
  | atHead hfirst hroom hsteps =>
    rw [← hsame _ rfl] at hfirst hroom
    exact .atHead hfirst hroom hsteps
  | woken hfirst hsteps =>
    rw [← hsame _ rfl] at hfirst
    exact .woken hfirst hsteps
  | behind hline hfirst hsteps =>
    rw [← hsame _ rfl] at hline hfirst
    exact .behind hline hfirst hsteps

end Stage

/-- A step of a task that leaves it fewer steps, and everybody else where they stood but for those
    whom it wakes: these were in line, and are first now. -/
structure Orders {α : Type} (w : World) (task left : Nat) (move : Move α) : Prop where
  clock : move.world.clock = w.clock
  tidy : move.world.limiter.Tidy
  stands : ∃ less < left, move.stage.Stands move.world.limiter task (move.pace.due w.clock) less
  own {name : String} (h : task ∈ (move.world.limiter.present name).line) :
    move.stage.name? = some name
  lined {other : Nat} {name : String} (hother : other ≠ task)
    (h : other ∈ (move.world.limiter.present name).line) : other ∈ (w.limiter.present name).line
  others {other left' : Nat} {stage : Stage α} {due : Option Nat} (hother : other ≠ task)
    (hasleep : other ∉ move.woken) (h : stage.Stands w.limiter other due left') :
    stage.Stands move.world.limiter other due left'
  single : move.woken.Nodup
  woken {other : Nat} (h : other ∈ move.woken) : other ≠ task ∧ ∃ name,
    other ∈ (w.limiter.present name).line ∧ (w.limiter.present name).first? ≠ some other ∧
      (move.world.limiter.present name).first? = some other

namespace Stage

variable {α : Type} {w w' : World} {task n left number since : Nat} {name : String}
variable {plan : Plan α} {k : Except Failure Nat → Plan α}

theorem orders_aside {stage : Stage α} {pace : Pace} (htidy : w.limiter.Tidy)
    (hnew : ∀ name, task ∉ (w.limiter.present name).line) (hclock : w'.clock = w.clock)
    (hlimiter : w'.limiter = w.limiter)
    (hstands : ∃ less < left, stage.Stands w.limiter task (pace.due w.clock) less) :
    Orders w task left ⟨stage, w', [], pace⟩ where
  clock := hclock
  tidy := hlimiter ▸ htidy
  stands := by
    dsimp only
    rw [hlimiter]
    exact hstands
  own h := by
    dsimp only at h
    rw [hlimiter] at h
    exact absurd h (hnew _)
  lined _ h := by
    dsimp only at h
    rwa [hlimiter] at h
  others _ _ h := by
    dsimp only
    rwa [hlimiter]
  single := List.nodup_nil
  woken h := absurd h List.not_mem_nil

section AtWindow

variable (htidy : w.limiter.Tidy)
variable (honly : ∀ other, task ∈ (w.limiter.present other).line → other = name)
variable (hquota : 0 < (w.limiter.present name).limit.quota)

include htidy honly

theorem orders_put {window : Window} {stage : Stage α} {woken : List Nat} {pace : Pace}
    (hdistinct : window.line.Nodup) (hwithin : window.admitted.length ≤ window.limit.quota)
    (hstands : ∃ less < left, stage.Stands (w.limiter.put name window) task
      (pace.due w.clock) less)
    (hown : task ∈ window.line → stage.name? = some name)
    (hlined : ∀ other, other ≠ task → other ∈ window.line →
      other ∈ (w.limiter.present name).line)
    (hfirst : ∀ other, other ≠ task → (w.limiter.present name).first? = some other →
      window.first? = some other ∧ ∀ moment, (w.limiter.present name).HasRoom moment →
        window.HasRoom moment)
    (hbehind : ∀ other, other ≠ task → other ∉ woken → other ∈ (w.limiter.present name).line →
      (w.limiter.present name).first? ≠ some other →
        other ∈ window.line ∧ window.first? ≠ some other)
    (hsingle : woken.Nodup)
    (hwoken : ∀ other ∈ woken, other ≠ task ∧ other ∈ (w.limiter.present name).line ∧
      (w.limiter.present name).first? ≠ some other ∧ window.first? = some other) :
    Orders w task left
      ⟨stage, { w with limiter := w.limiter.put name window }, woken, pace⟩ := by
  have hput := htidy.toSound.put name window
  have hpresent := hput.present_eq
  have helsewhere {other : String} (hother : other ≠ name) := hput.others hother
  refine ⟨rfl, htidy.put name hdistinct hwithin, hstands, fun {other} h => ?_,
    fun {task' other} hother h => ?_, fun {task' left' stage' due} hother hasleep h => ?_, hsingle,
    fun h => ?_⟩
  · by_cases hname : other = name
    · subst hname
      exact hown (hpresent ▸ h)
    · exact absurd (honly other (helsewhere hname ▸ h)) hname
  · by_cases hname : other = name
    · subst hname
      exact hlined task' hother (hpresent ▸ h)
    · exact helsewhere hname ▸ h
  · by_cases hname : stage'.name? = some name
    · cases h with
      | ready | finished => cases hname
      | atHead hfirst' hroom hsteps =>
        cases hname
        obtain ⟨hfirst', hroom'⟩ := hfirst task' hother hfirst'
        exact .atHead (hpresent.symm ▸ hfirst') (hpresent.symm ▸ hroom' _ hroom) hsteps
      | woken hfirst' hsteps =>
        cases hname
        exact .woken (hpresent.symm ▸ (hfirst task' hother hfirst').1) hsteps
      | behind hline hfirst' hsteps =>
        cases hname
        obtain ⟨hline', hfirst'⟩ := hbehind task' hother hasleep hline hfirst'
        exact .behind (hpresent.symm ▸ hline') (hpresent.symm ▸ hfirst') hsteps
    · exact h.congr fun other hother => helsewhere fun hsame => hname (hsame ▸ hother)
  · obtain ⟨hother, hline, hbefore, hafter⟩ := hwoken _ h
    exact ⟨hother, name, hline, hbefore, hpresent.symm ▸ hafter⟩

variable (hfirst : ∀ other, (w.limiter.present name).first? = some other → other = task)

include hfirst

theorem orders_admitted (hroom : (w.limiter.present name).HasRoom w.clock) (hsteps : plan.Takes n)
    (hless : n + 1 < left) :
    Orders w task left
      ⟨.ready plan,
        { w with
          limiter := w.limiter.put name ((w.limiter.present name).admitFirst w.clock) },
        ((w.limiter.present name).admitFirst w.clock).first?.toList, .atOnce⟩ := by
  have hdistinct := htidy.distinct name
  obtain ⟨hself, hrest⟩ := Window.tail_of_first hdistinct hfirst
  have hgrown : ((w.limiter.present name).admitFirst w.clock).admitted.length ≤
      ((w.limiter.present name).admitFirst w.clock).limit.quota := by
    change (_ ++ [_]).length ≤ _
    rw [List.length_append]
    exact hroom
  have htail : ((w.limiter.present name).admitFirst w.clock).line =
      (w.limiter.present name).line.tail := rfl
  generalize (w.limiter.present name).admitFirst w.clock = window at hgrown htail
  refine orders_put htidy honly (htail ▸ hdistinct.sublist (List.tail_sublist _)) hgrown
    ⟨n + 1, hless, .ready hsteps⟩ (fun h => absurd (htail ▸ h) hself)
    (fun _ _ h => List.mem_of_mem_tail (htail ▸ h))
    (fun other hother h => absurd (hfirst other h) hother)
    (fun other hother hasleep hline _ => ?_) ?_ fun other hother => ?_
  · exact ⟨htail.symm ▸ hrest other hother hline, fun h => hasleep (Option.mem_toList.2 h)⟩
  · exact Option.toList_nodup _
  · have hwindow : window.first? = some other := Option.mem_toList.1 hother
    have hmem : other ∈ (w.limiter.present name).line.tail :=
      htail ▸ List.mem_of_head? hwindow
    have hne : other ≠ task := fun hsame => hself (hsame ▸ hmem)
    exact ⟨hne, List.mem_of_mem_tail hmem, fun h => hne (hfirst other h), hwindow⟩

include hquota in
theorem orders_held (hsteps : ∀ r, (k r).Takes n) (hless : n + 2 < left) :
    Orders w task left
      ⟨.atHead number name since k,
        { w with
          limiter := w.limiter.put name ((w.limiter.present name).holdFirst task w.clock) },
        [], .later ((w.limiter.present name).turn w.clock)⟩ := by
  have hdistinct := htidy.distinct name
  obtain ⟨hself, hrest⟩ := Window.tail_of_first hdistinct hfirst
  have hkept := hdistinct.sublist (List.tail_sublist _)
  have hwithin := (Window.length_prune_le _ w.clock).trans (htidy.within name)
  have hroom : ((w.limiter.present name).holdFirst task w.clock).HasRoom
      ((w.limiter.present name).turn w.clock) :=
    Window.hasRoom_turn (htidy.within name) hquota w.clock
  have hpresent :=
    htidy.toSound.present_put name ((w.limiter.present name).holdFirst task w.clock)
  refine orders_put htidy honly (List.nodup_cons.2 ⟨hself, hkept⟩) hwithin
    ⟨n + 2, hless, .atHead (hpresent.symm ▸ rfl) (hpresent.symm ▸ hroom) hsteps⟩ (fun _ => rfl)
    (fun other hother h => List.mem_of_mem_tail ((List.mem_cons.1 h).resolve_left hother))
    (fun other hother h => absurd (hfirst other h) hother)
    (fun other hother _ h _ => ?_) List.nodup_nil fun _ h => absurd h List.not_mem_nil
  exact ⟨List.mem_cons_of_mem _ (hrest other hother h), fun h => hother (Option.some.inj h).symm⟩

omit hfirst in
theorem orders_behind (hline : (w.limiter.present name).line ≠ [])
    (hnew : task ∉ (w.limiter.present name).line) (hsteps : ∀ r, (k r).Takes n)
    (hless : n + 3 < left) :
    Orders w task left
      ⟨.inLine number name k,
        { w with limiter := w.limiter.put name ((w.limiter.present name).join task) },
        [], .asleep⟩ := by
  have hpresent := htidy.toSound.present_put name ((w.limiter.present name).join task)
  have hfirst := Window.first?_join hline task
  have hjoined {other : Nat} :
      other ∈ ((w.limiter.present name).join task).line ↔
        other ∈ (w.limiter.present name).line ∨ other = task := by
    rw [Window.join, List.mem_append, List.mem_singleton]
  have hbehind : (w.limiter.present name).first? ≠ some task := fun h =>
    hnew (List.mem_of_head? h)
  refine orders_put htidy honly ?_ (htidy.within name)
    ⟨n + 3, hless, .behind (hpresent.symm ▸ hjoined.2 (.inr rfl)) ?_ hsteps⟩ (fun _ => rfl)
    (fun other hother h => (hjoined.1 h).resolve_right hother)
    (fun other _ h => ⟨hfirst.trans h, fun _ hroom => hroom⟩)
    (fun other _ _ h hfirst' => ⟨hjoined.2 (.inl h), hfirst.symm ▸ hfirst'⟩)
    List.nodup_nil fun _ h => absurd h List.not_mem_nil
  · refine List.nodup_append.2 ⟨htidy.distinct name, List.nodup_singleton _, ?_⟩
    rintro other hother _ htask rfl
    exact hnew (List.mem_singleton.1 htask ▸ hother)
  · rw [hpresent, hfirst]
    exact hbehind

end AtWindow

variable {M : Manner} {p : Provider} {client moment : Nat} {P : α → Prop} {stage : Stage α}

theorem orders_awaitTurn (htidy : w.limiter.Tidy)
    (hnew : ∀ name, task ∉ (w.limiter.present name).line)
    (hquota : 0 < (w.limiter.present p.name).limit.quota)
    (hsteps : (Plan.awaitTurn p.name k).Takes n) :
    Orders w task (n + 1) ((Plan.awaitTurn p.name k).move task w) := by
  obtain ⟨hthree, hsteps⟩ := hsteps
  have honly : ∀ other, task ∈ (w.limiter.present other).line → other = p.name := fun other h =>
    absurd h (hnew other)
  rw [Plan.move, htidy.toSound.arrive_eq]
  dsimp only
  rw [w.askWindow_put htidy.toSound]
  by_cases hline : (w.limiter.present p.name).line = []
  · have hfirst : ∀ other, (w.limiter.present p.name).first? = some other → other = task := by
      intro other h
      rw [Window.first?, hline] at h
      cases h
    rw [Window.ask_join hline hquota]
    by_cases hroom : (w.limiter.present p.name).HasRoom w.clock
    · rw [if_pos hroom]
      exact orders_admitted htidy honly hfirst hroom (hsteps _) (by omega)
    · rw [if_neg hroom]
      exact orders_held htidy honly hquota hfirst hsteps (by omega)
  · have hbehind : ((w.limiter.present p.name).join task).first? ≠ some task := by
      rw [Window.first?_join hline]
      exact fun h => hnew _ (List.mem_of_head? h)
    rw [Window.ask_behind hbehind]
    exact orders_behind htidy honly hline (hnew _) hsteps (by omega)

theorem orders_moveAgain (htidy : w.limiter.Tidy)
    (honly : ∀ other, task ∈ (w.limiter.present other).line → other = p.name)
    (hquota : 0 < (w.limiter.present p.name).limit.quota)
    (hnumber : w.limiter.current.get? p.name = some number)
    (hfirst : (w.limiter.present p.name).first? = some task) (hsteps : ∀ r, (k r).Takes n)
    (hless : n + 1 < left)
    (hroom : (w.limiter.present p.name).HasRoom w.clock ∨ n + 2 < left) :
    Orders w task left (moveAgain task number p.name since k w) := by
  obtain ⟨rest, hline⟩ := List.head?_eq_some_iff.1 hfirst
  have hfirst' : ∀ other, (w.limiter.present p.name).first? = some other → other = task := by
    intro other h
    exact Option.some.inj (h.symm.trans hfirst)
  rw [moveAgain, World.askWindow_of_get? htidy.toSound hnumber, Window.ask_first hline hquota]
  by_cases hadmitted : (w.limiter.present p.name).HasRoom w.clock
  · rw [if_pos hadmitted]
    exact orders_admitted htidy honly hfirst' hadmitted (hsteps _) hless
  · rw [if_neg hadmitted]
    exact orders_held htidy honly hquota hfirst' hsteps (hroom.resolve_left hadmitted)

theorem orders_plan (htidy : w.limiter.Tidy) (hnew : ∀ name, task ∉ (w.limiter.present name).line)
    (hquota : 0 < (w.limiter.present p.name).limit.quota) (hplan : plan.Within M p client P)
    (hsteps : plan.Takes n) : Orders w task (n + 1) (plan.move task w) := by
  have hgoesOn {plan' : Plan α} {w' : World} {less : Nat} (hclock : w'.clock = w.clock)
      (hlimiter : w'.limiter = w.limiter) (hsteps : plan'.Takes less) (hless : less < n) :
      Orders w task (n + 1) ⟨.ready plan', w', [], .atOnce⟩ :=
    orders_aside htidy hnew hclock hlimiter ⟨less + 1, Nat.succ_lt_succ hless, .ready hsteps⟩
  cases hplan with
  | done => exact orders_aside htidy hnew rfl rfl ⟨0, Nat.succ_pos n, .finished⟩
  | awaitTurn => exact orders_awaitTurn htidy hnew hquota hsteps
  | openCircuit | count =>
    obtain ⟨hone, hsteps⟩ := hsteps
    exact hgoesOn rfl rfl hsteps (by omega)
  | checkCircuit | readClock =>
    obtain ⟨hone, hsteps⟩ := hsteps
    exact hgoesOn rfl rfl (hsteps _) (by omega)
  | place =>
    obtain ⟨hone, hsteps⟩ := hsteps
    exact hgoesOn (w.place_clock client _) (w.place_limiter client _) (hsteps _) (by omega)
  | receive =>
    obtain ⟨hone, hsteps⟩ := hsteps
    exact hgoesOn (w.receive_clock client _) (w.receive_limiter client _) (hsteps _) (by omega)
  | @pause ms k =>
    obtain ⟨htwo, hsteps⟩ := hsteps
    cases ms with
    | zero => exact hgoesOn rfl rfl hsteps (by omega)
    | succ ms =>
      exact orders_aside htidy hnew rfl rfl ⟨n - 2 + 1, by omega, .ready hsteps⟩

theorem Stands.orders (h : stage.Stands w.limiter task (some moment) left)
    (hwithin : stage.Within M p client P w.limiter) (htidy : w.limiter.Tidy)
    (hquota : 0 < (w.limiter.present p.name).limit.quota) (hmoment : moment ≤ w.clock)
    (honly : ∀ name, task ∈ (w.limiter.present name).line → stage.name? = some name) :
    Orders w task left (stage.move task w) := by
  cases h with
  | ready hsteps =>
    have hnew : ∀ name, task ∉ (w.limiter.present name).line := fun name h => nomatch honly name h
    cases hwithin with
    | ready hplan => exact orders_plan htidy hnew hquota hplan hsteps
  | atHead hfirst hroom hsteps =>
    have honly' : ∀ other, task ∈ (w.limiter.present other).line → other = _ := fun other h =>
      (Option.some.inj (honly other h)).symm
    cases hwithin with
    | atHead hnumber =>
      exact orders_moveAgain htidy honly' hquota hnumber hfirst hsteps (Nat.lt_succ_self _)
        (.inl (hroom.later hmoment))
  | woken hfirst hsteps =>
    have honly' : ∀ other, task ∈ (w.limiter.present other).line → other = _ := fun other h =>
      (Option.some.inj (honly other h)).symm
    cases hwithin with
    | inLine hnumber =>
      exact orders_moveAgain htidy honly' hquota hnumber hfirst hsteps (by omega)
        (.inr (Nat.lt_succ_self _))

end Stage

namespace Machine

variable {α : Type} {due : Nat → Option Nat} {left : Nat → Nat} {m : Machine α} {task : Nat}

def waiting (m : Machine α) : List Nat := m.queue ++ m.timers.map (·.2)

/-- A machine that keeps in mind from which moment each task can go on, if there is one. -/
structure Attends (due : Nat → Option Nat) (m : Machine α) : Prop where
  single : m.waiting.Nodup
  queued {task : Nat} (h : task ∈ m.queue) :
    ∃ moment, due task = some moment ∧ moment ≤ m.world.clock
  timed {e : Nat × Nat} (h : e ∈ m.timers) : due e.2 = some e.1
  waits {task moment : Nat} (h : due task = some moment) :
    task ∈ m.queue ∨ (moment, task) ∈ m.timers
  numbers {task moment : Nat} (h : due task = some moment) : task < m.stages.length

theorem Attends.due_of_waiting (h : m.Attends due) (hmem : task ∈ m.waiting) :
    due task ≠ none := by
  rcases List.mem_append.1 hmem with hmem | hmem
  · obtain ⟨moment, hdue, -⟩ := h.queued hmem
    rw [hdue]
    nofun
  · obtain ⟨e, he, rfl⟩ := List.mem_map.1 hmem
    rw [h.timed he]
    nofun

theorem Attends.passTo (h : m.Attends due) (moment : Nat) : (m.passTo moment).Attends due := by
  have hrest : (m.timers.filter fun e => moment < e.1) =
      m.timers.filter fun e => !decide (e.1 ≤ moment) :=
    List.filter_congr fun e _ => by rw [← decide_not, decide_eq_decide, Nat.not_le]
  have hwaiting : (m.passTo moment).waiting.Perm m.waiting := by
    rw [waiting, waiting, Machine.passTo, hrest]
    dsimp only
    rw [List.append_assoc, ← List.map_append]
    exact ((List.filter_append_perm _ m.timers).map _).append_left m.queue
  refine ⟨hwaiting.nodup_iff.2 h.single, fun {task} hmem => ?_,
    fun he => h.timed (List.mem_filter.1 he).1, fun {task due'} hdue => ?_, h.numbers⟩
  · rcases List.mem_append.1 hmem with hmem | hmem
    · obtain ⟨due', hdue, hle⟩ := h.queued hmem
      exact ⟨due', hdue, hle.trans (Nat.le_max_left _ _)⟩
    · obtain ⟨e, he, rfl⟩ := List.mem_map.1 hmem
      obtain ⟨htimer, hle⟩ := List.mem_filter.1 he
      exact ⟨e.1, h.timed htimer, (of_decide_eq_true hle).trans (Nat.le_max_right _ _)⟩
  · rcases h.waits hdue with hmem | hmem
    · exact .inl (List.mem_append_left _ hmem)
    · by_cases hle : due' ≤ moment
      · have htimer : (due', task) ∈ m.timers.filter fun e => e.1 ≤ moment :=
          List.mem_filter.2 ⟨hmem, decide_eq_true hle⟩
        exact .inl (List.mem_append_right _ (List.mem_map.2 ⟨_, htimer, rfl⟩))
      · exact .inr (List.mem_filter.2 ⟨hmem, decide_eq_true (Nat.not_le.1 hle)⟩)

def dueAfter (due : Nat → Option Nat) (now task : Nat) (move : Move α) : Nat → Option Nat :=
  fun other =>
    if other = task then move.pace.due now
    else if other ∈ move.woken then some now
    else due other

section Moved

variable {now other : Nat} {move : Move α} {stage : Stage α}

theorem dueAfter_self : dueAfter due now task move task = move.pace.due now := if_pos rfl

theorem dueAfter_of_woken (hother : other ≠ task) (h : other ∈ move.woken) :
    dueAfter due now task move other = some now := by
  rw [dueAfter, if_neg hother, if_pos h]

theorem dueAfter_of_asleep (hother : other ≠ task) (h : other ∉ move.woken) :
    dueAfter due now task move other = due other := by
  rw [dueAfter, if_neg hother, if_neg h]

theorem waiting_moved (hqueue : task ∈ m.queue) (move : Move α) (now : Nat) :
    ∃ others, m.waiting.Perm (task :: others) ∧
      (m.moved task move).waiting.Perm
        ((move.pace.due now).toList.map (fun _ => task) ++ move.woken ++ others) := by
  have hsplit := List.perm_cons_erase hqueue
  refine ⟨m.queue.erase task ++ m.timers.map (·.2), hsplit.append_right _, ?_⟩
  have hcount (a : Nat) : m.queue.count a = (m.queue.erase task).count a + [task].count a := by
    rw [hsplit.count_eq a, ← List.count_append]
    exact (List.perm_append_singleton task _).symm.count_eq a
  rw [waiting, moved, List.perm_iff_count]
  intro a
  cases move.pace <;>
    simp only [Pace.due, Option.toList_some, Option.toList_none, List.map_cons, List.map_nil,
      List.map_append, List.count_append, List.count_nil, hcount a] <;> omega

theorem mem_queue_moved (hsingle : m.queue.Nodup) : other ∈ (m.moved task move).queue ↔
    other ∈ move.woken ∨ other ∈ m.queue ∧ (other = task → move.pace = .atOnce) := by
  rw [moved]
  cases move.pace with
  | atOnce => simp [or_comm]
  | later | asleep => simp [hsingle.mem_erase_iff, or_comm, and_comm]

theorem mem_timers_moved {e : Nat × Nat} : e ∈ (m.moved task move).timers ↔
    e ∈ m.timers ∨ e.2 = task ∧ move.pace = .later e.1 := by
  rw [moved]
  cases move.pace with
  | atOnce | asleep => simp
  | later moment => simp [Prod.ext_iff, and_comm, eq_comm]

theorem Attends.single_moved (h : m.Attends due) (hqueue : task ∈ m.queue)
    (hsingle : move.woken.Nodup) (hself : task ∉ move.woken)
    (hasleep : ∀ other ∈ m.waiting, other ∉ move.woken) : (m.moved task move).waiting.Nodup := by
  obtain ⟨others, hbefore, hafter⟩ := waiting_moved hqueue move m.world.clock
  obtain ⟨hnew, hothers⟩ := List.nodup_cons.1 (hbefore.nodup_iff.1 h.single)
  rw [hafter.nodup_iff]
  refine List.nodup_append'.2 ⟨List.nodup_append'.2 ⟨?_, hsingle, ?_⟩, hothers, ?_⟩
  · cases move.pace.due m.world.clock with
    | none => exact List.nodup_nil
    | some moment => exact List.nodup_singleton task
  · intro other hfirst hother
    obtain ⟨-, -, rfl⟩ := List.mem_map.1 hfirst
    exact hself hother
  · intro other hfirst hother
    rcases List.mem_append.1 hfirst with hfirst | hfirst
    · obtain ⟨-, -, rfl⟩ := List.mem_map.1 hfirst
      exact hnew hother
    · exact hasleep other (hbefore.mem_iff.2 (List.mem_cons_of_mem _ hother)) hfirst

theorem Attends.waits_moved (h : m.Attends due) (hqueue : task ∈ m.queue) {moment : Nat}
    (hdue : dueAfter due m.world.clock task move other = some moment) :
    other ∈ (m.moved task move).queue ∨ (moment, other) ∈ (m.moved task move).timers := by
  rw [mem_queue_moved (List.nodup_append'.1 h.single).1, mem_timers_moved]
  by_cases hother : other = task
  · subst hother
    rw [dueAfter_self] at hdue
    cases hpace : move.pace with
    | atOnce => exact .inl (.inr ⟨hqueue, fun _ => rfl⟩)
    | later moment' =>
      rw [hpace] at hdue
      cases hdue
      exact .inr (.inr ⟨rfl, rfl⟩)
    | asleep =>
      rw [hpace] at hdue
      cases hdue
  · by_cases hmem : other ∈ move.woken
    · exact .inl (.inl hmem)
    · rw [dueAfter_of_asleep hother hmem] at hdue
      exact (h.waits hdue).imp (fun hmem => .inr ⟨hmem, fun hsame => absurd hsame hother⟩) .inl

theorem Attends.moved (h : m.Attends due) (hqueue : task ∈ m.queue)
    (htask : task < m.stages.length) (hclock : move.world.clock = m.world.clock)
    (hsingle : move.woken.Nodup)
    (hwoken : ∀ other ∈ move.woken, other ≠ task ∧ due other = none ∧ other < m.stages.length) :
    (m.moved task move).Attends (dueAfter due m.world.clock task move) := by
  have hasleep (other : Nat) (hother : other ∈ m.waiting) : other ∉ move.woken := fun hmem =>
    h.due_of_waiting hother (hwoken other hmem).2.1
  obtain ⟨hqueued, -, hapart⟩ := List.nodup_append'.1 h.single
  refine ⟨h.single_moved hqueue hsingle (fun hself => (hwoken task hself).1 rfl) hasleep,
    fun {other} hother => ?_, fun {e} he => ?_, h.waits_moved hqueue, fun {other moment} hdue => ?_⟩
  · rw [show (m.moved task move).world.clock = m.world.clock from hclock]
    rcases (mem_queue_moved hqueued).1 hother with hmem | ⟨hmem, hpace⟩
    · exact ⟨_, dueAfter_of_woken (hwoken _ hmem).1 hmem, Nat.le_refl _⟩
    · by_cases hother : other = task
      · subst hother
        rw [dueAfter_self, hpace rfl]
        exact ⟨_, rfl, Nat.le_refl _⟩
      · rw [dueAfter_of_asleep hother (hasleep other (List.mem_append_left _ hmem))]
        exact h.queued hmem
  · rcases mem_timers_moved.1 he with he | ⟨hsame, hpace⟩
    · have hmem := List.mem_map_of_mem (f := (·.2)) he
      have hother : e.2 ≠ task := fun hsame => hapart hqueue (hsame ▸ hmem)
      rw [dueAfter_of_asleep hother (hasleep e.2 (List.mem_append_right _ hmem))]
      exact h.timed he
    · rw [hsame, dueAfter_self, hpace]
      rfl
  · rw [show (m.moved task move).stages.length = m.stages.length from List.length_set]
    by_cases hother : other = task
    · exact hother ▸ htask
    · by_cases hmem : other ∈ move.woken
      · exact (hwoken other hmem).2.2
      · rw [dueAfter_of_asleep hother hmem] at hdue
        exact h.numbers hdue

end Moved

/-- A machine in which every task stands in order, with how many steps are left to it. -/
structure Orderly (due : Nat → Option Nat) (left : Nat → Nat) (m : Machine α) : Prop extends
    m.Attends due where
  tidy : m.world.limiter.Tidy
  stands {task : Nat} {stage : Stage α} (h : m.stages[task]? = some stage) :
    stage.Stands m.world.limiter task (due task) (left task)
  lined {task : Nat} {name : String} (h : task ∈ (m.world.limiter.present name).line) :
    ∃ stage, m.stages[task]? = some stage ∧ stage.name? = some name

namespace Orderly

variable {stage : Stage α}

theorem passTo (h : m.Orderly due left) (moment : Nat) : (m.passTo moment).Orderly due left :=
  ⟨h.toAttends.passTo moment, h.tidy, h.stands, h.lined⟩

theorem atWorld (h : m.Orderly due left) {w : World} (hclock : w.clock = m.world.clock)
    (hlimiter : w.limiter = m.world.limiter) :
    ({ m with world := w } : Machine α).Orderly due left where
  single := h.single
  queued hmem := by
    dsimp only
    rw [hclock]
    exact h.queued hmem
  timed := h.timed
  waits := h.waits
  numbers := h.numbers
  tidy := hlimiter ▸ h.tidy
  stands hstage := hlimiter ▸ h.stands hstage
  lined hline := h.lined (hlimiter ▸ hline)

theorem asleep_of_woken (h : m.Orderly due left) {move : Move α}
    (hmove : Orders m.world task (left task) move) {other : Nat} (hwoken : other ∈ move.woken) :
    other ≠ task ∧ due other = none ∧ ∃ stage, m.stages[other]? = some stage ∧
      stage.Stands move.world.limiter other (some m.world.clock) (left other) := by
  obtain ⟨hother, name, hline, hbehind, hfirst⟩ := hmove.woken hwoken
  obtain ⟨stage, hstage, hname⟩ := h.lined hline
  obtain ⟨hdue, hwakes⟩ := (h.stands hstage).behind_of_name hname hbehind
  exact ⟨hother, hdue, stage, hstage, hwakes _ hfirst⟩

theorem moved (h : m.Orderly due left) (hqueue : task ∈ m.queue)
    (hstage : m.stages[task]? = some stage) {move : Move α}
    (hmove : Orders m.world task (left task) move) :
    ∃ less < left task, (m.moved task move).Orderly (dueAfter due m.world.clock task move)
      (Function.update left task less) := by
  obtain ⟨less, hless, hstands⟩ := hmove.stands
  have htask := (List.getElem?_eq_some_iff.1 hstage).1
  have hset : (m.stages.set task move.stage)[task]? = some move.stage :=
    List.getElem?_set_self htask
  have hkept {other : Nat} (hother : other ≠ task) :
      (m.stages.set task move.stage)[other]? = m.stages[other]? :=
    List.getElem?_set_ne hother.symm
  have hattends := h.toAttends.moved hqueue htask hmove.clock hmove.single fun other hwoken => by
    obtain ⟨hother, hdue, stage', hstage', -⟩ := h.asleep_of_woken hmove hwoken
    exact ⟨hother, hdue, (List.getElem?_eq_some_iff.1 hstage').1⟩
  refine ⟨less, hless, hattends, hmove.tidy, fun {other stage'} hstage' => ?_,
    fun {other name} hline => ?_⟩
  · by_cases hother : other = task
    · subst hother
      obtain rfl : move.stage = stage' := Option.some.inj (hset.symm.trans hstage')
      rw [Function.update_self, dueAfter_self]
      exact hstands
    · rw [Function.update_of_ne hother]
      have hstage' := (hkept hother).symm.trans hstage'
      by_cases hwoken : other ∈ move.woken
      · obtain ⟨-, -, stage'', hstage'', hfirst⟩ := h.asleep_of_woken hmove hwoken
        obtain rfl : stage' = stage'' := Option.some.inj (hstage'.symm.trans hstage'')
        rw [dueAfter_of_woken hother hwoken]
        exact hfirst
      · rw [dueAfter_of_asleep hother hwoken]
        exact hmove.others hother hwoken (h.stands hstage')
  · by_cases hother : other = task
    · subst hother
      exact ⟨_, hset, hmove.own hline⟩
    · obtain ⟨stage', hstage', hname⟩ := h.lined (hmove.lined hother hline)
      exact ⟨stage', (hkept hother).trans hstage', hname⟩

/-- When nothing more can happen, all tasks are finished: the first in a line is never asleep. -/
theorem isOver (h : m.Orderly due left) (hqueue : m.queue = []) (htimers : m.timers = []) :
    m.isOver = true := by
  have hasleep (task : Nat) : due task = none := by
    cases hdue : due task with
    | none => rfl
    | some moment =>
      rcases h.waits hdue with hmem | hmem
      · rw [hqueue] at hmem
        cases hmem
      · rw [htimers] at hmem
        cases hmem
  refine List.all_eq_true.2 fun stage hmem => ?_
  obtain ⟨task, hstage⟩ := List.mem_iff_getElem?.1 hmem
  have hstands := h.stands hstage
  rw [hasleep] at hstands
  generalize left task = n at hstands
  cases hstands with
  | finished => rfl
  | @behind number n name k hline hfirst hsteps =>
    obtain ⟨first, rest, hcons⟩ := List.exists_cons_of_ne_nil (List.ne_nil_of_mem hline)
    have hfirst' : (m.world.limiter.present name).first? = some first := congrArg List.head? hcons
    obtain ⟨stage', hstage', hname⟩ := h.lined (hcons ▸ List.mem_cons_self)
    have hstands' := h.stands hstage'
    rw [hasleep] at hstands'
    generalize left first = n' at hstands'
    cases hstands' with
    | finished => cases hname
    | behind _ hbehind =>
      cases hname
      exact absurd hfirst' hbehind

end Orderly

end Machine
end LinkRelay
