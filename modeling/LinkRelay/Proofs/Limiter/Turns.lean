import LinkRelay.Proofs.Dictionary
import LinkRelay.Limiter
set_option autoImplicit false

/-!
# The turn of a caller who is alone

A limiter is at rest when nobody stands in line at any of its windows. `Window.AtRest.join` says
what a caller learns who comes then: that it is admitted, that it never will be, or the one moment
at which it is. `Limiter.put` changes the window of one name, and `Limiter.Put` says what that
leaves alone.
-/

namespace LinkRelay

namespace Window

/-- The moment at which a caller is admitted who comes now and finds nobody in line. -/
def turn (w : Window) (now : Nat) : Nat :=
  if (w.prune now).admitted.length < w.limit.quota then now
  else (w.prune now).admitted.head?.getD now + w.limit.windowMs

def grant (w : Window) (moment : Nat) : Window :=
  { w.prune moment with admitted := (w.prune moment).admitted ++ [moment] }

def held (w : Window) (caller : Caller) (now : Nat) : Window :=
  { w.prune now with line := [caller] }

structure AtRest (w : Window) : Prop where
  idle : w.line = []
  within : w.admitted.length ≤ w.limit.quota

theorem atRest_fresh (limit : Limit) : (fresh limit).AtRest := ⟨rfl, Nat.zero_le _⟩

variable {w : Window} {now : Nat}

theorem length_prune_le (w : Window) (now : Nat) :
    (w.prune now).admitted.length ≤ w.admitted.length :=
  (List.dropWhile_suffix _).length_le

theorem prune_prune {later : Nat} (h : now ≤ later) (w : Window) :
    (w.prune now).prune later = w.prune later := by
  have hdrop (l : List Nat) :
      (l.dropWhile fun t => t + w.limit.windowMs ≤ now).dropWhile
          (fun t => t + w.limit.windowMs ≤ later) =
        l.dropWhile fun t => t + w.limit.windowMs ≤ later := by
    induction l with
    | nil => rfl
    | cons t rest ih =>
      by_cases ht : t + w.limit.windowMs ≤ now
      · rw [List.dropWhile_cons_of_pos (by simpa using ht),
          List.dropWhile_cons_of_pos (by simpa using ht.trans h), ih]
      · rw [List.dropWhile_cons_of_neg (by simpa using ht)]
  exact congrArg (fun admitted => ({ w with admitted } : Window)) (hdrop w.admitted)

theorem lt_of_head?_prune {oldest : Nat} (h : (w.prune now).admitted.head? = some oldest) :
    now < oldest + w.limit.windowMs := by
  have hkept := List.head?_dropWhile_not (fun t => decide (t + w.limit.windowMs ≤ now)) w.admitted
  rw [show (w.admitted.dropWhile _).head? = some oldest from h] at hkept
  simpa using hkept

theorem length_prune_turn (hw : w.admitted.length ≤ w.limit.quota) (hquota : 0 < w.limit.quota) :
    (w.prune (w.turn now)).admitted.length < w.limit.quota := by
  unfold turn
  split
  · assumption
  · rename_i hfull
    cases hp : (w.prune now).admitted with
    | nil =>
      rw [hp] at hfull
      exact absurd hquota hfull
    | cons oldest rest =>
      have hlater : now < oldest + w.limit.windowMs := lt_of_head?_prune (congrArg List.head? hp)
      have hdropped : ((w.prune now).prune (oldest + w.limit.windowMs)).admitted <:+ rest := by
        rw [prune, hp, List.dropWhile_cons_of_pos (by simp [prune])]
        exact List.dropWhile_suffix _
      have hlength := (length_prune_le w now).trans hw
      rw [hp, List.length_cons] at hlength
      rw [List.head?_cons, Option.getD_some, ← prune_prune (Nat.le_of_lt hlater)]
      exact Nat.lt_of_le_of_lt hdropped.length_le hlength

theorem lt_turn (hfull : ¬ (w.prune now).admitted.length < w.limit.quota)
    (hquota : 0 < w.limit.quota) : now < w.turn now := by
  rw [turn, if_neg hfull]
  cases hp : (w.prune now).admitted with
  | nil =>
    rw [hp] at hfull
    exact absurd hquota hfull
  | cons oldest rest => exact lt_of_head?_prune (congrArg List.head? hp)

theorem AtRest.grant (h : w.AtRest) (hquota : 0 < w.limit.quota) :
    (w.grant (w.turn now)).AtRest := by
  refine ⟨h.idle, ?_⟩
  change ((w.prune (w.turn now)).admitted ++ [w.turn now]).length ≤ _
  rw [List.length_append, List.length_singleton]
  exact length_prune_turn h.within hquota

inductive Joined (w : Window) (caller : Caller) (now : Nat) : Admission × Window → Prop
  | refused (hquota : w.limit.quota = 0) : Joined w caller now (.neverPossible, w)
  | admitted (hquota : 0 < w.limit.quota) (hturn : w.turn now = now) :
    Joined w caller now (.admitted, w.grant now)
  | held (hquota : 0 < w.limit.quota) (hturn : now < w.turn now)
    (hlater : (w.held caller now).ask caller (w.turn now) = (.admitted, w.grant (w.turn now))) :
    Joined w caller now (.notBefore (w.turn now), w.held caller now)

structure Held (w : Window) (caller : Caller) : Prop where
  line : w.line = [caller]
  within : w.admitted.length ≤ w.limit.quota

theorem AtRest.held (h : w.AtRest) (caller : Caller) (now : Nat) :
    (w.held caller now).Held caller :=
  ⟨rfl, (length_prune_le w now).trans h.within⟩

theorem Held.leave {caller : Caller} (h : w.Held caller) : (w.leave caller).AtRest := by
  refine ⟨?_, h.within⟩
  rw [Window.leave, h.line]
  exact List.erase_cons_head ..

theorem turn_of_full (hfull : ¬ (w.prune now).admitted.length < w.limit.quota) :
    w.turn now = (w.prune now).admitted.head?.getD now + w.limit.windowMs :=
  if_neg hfull

theorem grant_prune {later : Nat} (h : now ≤ later) :
    (w.prune now).grant later = w.grant later := by
  unfold grant
  rw [prune_prune h]

def HasRoom (w : Window) (now : Nat) : Prop := (w.prune now).admitted.length < w.limit.quota

instance (w : Window) (now : Nat) : Decidable (w.HasRoom now) :=
  inferInstanceAs (Decidable (_ < _))

def admitFirst (w : Window) (now : Nat) : Window := { w.grant now with line := w.line.tail }

def holdFirst (w : Window) (caller : Caller) (now : Nat) : Window :=
  { w.prune now with line := caller :: w.line.tail }

theorem ask_of_zero {caller : Caller} (hfirst : w.first? = some caller)
    (hquota : w.limit.quota = 0) : w.ask caller now = (.neverPossible, w.leave caller) := by
  rw [ask, if_neg (not_not_intro hfirst), if_pos hquota]

theorem ask_first {caller : Caller} {rest : List Caller} (hline : w.line = caller :: rest)
    (hquota : 0 < w.limit.quota) : w.ask caller now =
      if w.HasRoom now then (.admitted, w.admitFirst now)
      else (.notBefore (w.turn now), w.holdFirst caller now) := by
  have hfirst : w.first? = some caller := congrArg List.head? hline
  have hleave (admitted : List Nat) :
      ({ w with admitted } : Window).leave caller = { w with admitted, line := w.line.tail } := by
    rw [leave]
    dsimp only
    rw [hline, List.erase_cons_head, List.tail_cons]
  have hhold : w.holdFirst caller now = w.prune now := by
    rw [holdFirst, hline, List.tail_cons, ← hline]
    rfl
  rw [ask, if_neg (not_not_intro hfirst), if_neg (Nat.ne_of_gt hquota)]
  by_cases hroom : w.HasRoom now
  · rw [if_pos hroom]
    exact (if_pos hroom).trans (congrArg (Admission.admitted, ·) (hleave _))
  · rw [if_neg hroom, turn_of_full hroom, hhold]
    exact if_neg hroom

theorem ask_only (h : w.line = []) (caller : Caller) (now : Nat) :
    ({ w with line := [caller] } : Window).ask caller now =
      if w.limit.quota = 0 then (.neverPossible, w)
      else if (w.prune now).admitted.length < w.limit.quota then (.admitted, w.grant now)
      else (.notBefore (w.turn now), w.held caller now) := by
  obtain ⟨limit, admitted, line⟩ := w
  obtain rfl : line = [] := h
  by_cases hquota : limit.quota = 0
  · have hleave : (⟨limit, admitted, [caller]⟩ : Window).leave caller = ⟨limit, admitted, []⟩ := by
      rw [leave, List.erase_cons_head]
    rw [if_pos hquota]
    exact (ask_of_zero rfl hquota).trans (congrArg (Admission.neverPossible, ·) hleave)
  · rw [if_neg hquota]
    exact ask_first rfl (Nat.pos_of_ne_zero hquota)

theorem AtRest.join (h : w.AtRest) (caller : Caller) (now : Nat) :
    Joined w caller now ((w.join caller).ask caller now) := by
  have hjoin : w.join caller = { w with line := [caller] } := by
    rw [Window.join, h.idle, List.nil_append]
  rw [hjoin, ask_only h.idle]
  by_cases hquota : w.limit.quota = 0
  · rw [if_pos hquota]
    exact .refused hquota
  · have hpositive := Nat.pos_of_ne_zero hquota
    rw [if_neg hquota]
    by_cases hfree : (w.prune now).admitted.length < w.limit.quota
    · rw [if_pos hfree]
      exact .admitted hpositive (if_pos hfree)
    · -- the window is full now, and at the turn the oldest admission that filled it is gone
      rw [if_neg hfree]
      have hlater := lt_turn hfree hpositive
      refine .held hpositive hlater ?_
      have hroom : ((w.prune now).prune (w.turn now)).admitted.length < w.limit.quota := by
        rw [prune_prune (Nat.le_of_lt hlater)]
        exact length_prune_turn h.within hpositive
      rw [← grant_prune (Nat.le_of_lt hlater)]
      exact (ask_only (w := w.prune now) h.idle caller _).trans
        ((if_neg hquota).trans (if_pos hroom))

end Window

namespace Limiter

def present (l : Limiter) (name : String) : Window :=
  ((l.current.get? name).bind fun n => l.windows[n]?).getD (.fresh l.standard)

/-- Every name's number is that of a window, and no two names share one. -/
structure Sound (l : Limiter) : Prop where
  placed {name : String} {n : Nat} (h : l.current.get? name = some n) : n < l.windows.length
  separate {name other : String} {n : Nat} (h : l.current.get? name = some n)
    (h' : l.current.get? other = some n) : name = other

structure AtRest (l : Limiter) : Prop extends Sound l where
  resting (name : String) : (l.present name).AtRest

def number (l : Limiter) (name : String) : Nat := (l.window name).1

def put (l : Limiter) (name : String) (w : Window) : Limiter :=
  (l.window name).2.modify (l.number name) fun _ => w

structure Put (l : Limiter) (name : String) (n : Nat) (w : Window) (l' : Limiter) : Prop where
  sound : l'.Sound
  number : l'.current.get? name = some n
  window : l'.windows[n]? = some w
  numbers {other : String} (h : other ≠ name) : l'.current.get? other = l.current.get? other
  others {other : String} (h : other ≠ name) : l'.present other = l.present other
  standard : l'.standard = l.standard

variable {l l' : Limiter} {name : String} {n : Nat} {w : Window}

theorem present_of_get? (hn : l.current.get? name = some n) (hw : l.windows[n]? = some w) :
    l.present name = w := by
  rw [present, hn, Option.bind_some, hw, Option.getD_some]

theorem present_of_none (hn : l.current.get? name = none) : l.present name = .fresh l.standard := by
  rw [present, hn, Option.bind_none, Option.getD_none]

theorem Sound.windows_eq (h : l.Sound) (hn : l.current.get? name = some n) :
    l.windows[n]? = some (l.present name) := by
  obtain ⟨w, hw⟩ : ∃ w, l.windows[n]? = some w := ⟨_, List.getElem?_eq_getElem (h.placed hn)⟩
  rw [present_of_get? hn hw, hw]

theorem Put.present_eq (h : Put l name n w l') : l'.present name = w :=
  present_of_get? h.number h.window

theorem Sound.put_start (h : l.Sound) (name : String) (limit : Limit) :
    Put l name l.windows.length (.fresh limit) (l.start name limit) := by
  have hget (other : String) : (l.start name limit).current.get? other =
      if other = name then some l.windows.length else l.current.get? other :=
    Dictionary.get?_insert ..
  have hold {other : String} {m : Nat} (hother : other ≠ name)
      (hm : (l.start name limit).current.get? other = some m) : l.current.get? other = some m := by
    rwa [hget, if_neg hother] at hm
  refine ⟨⟨?_, ?_⟩, by rw [hget, if_pos rfl], ?_, ?_, ?_, rfl⟩
  · intro other m hm
    change m < (l.windows ++ [_]).length
    rw [List.length_append, List.length_singleton]
    by_cases hother : other = name
    · rw [hget, if_pos hother] at hm
      cases hm
      exact Nat.lt_succ_self _
    · exact Nat.lt_succ_of_lt (h.placed (hold hother hm))
  · intro a b m ha hb
    by_cases hname : a = name <;> by_cases hname' : b = name
    · rw [hname, hname']
    · rw [hget, if_pos hname] at ha
      cases ha
      exact absurd (h.placed (hold hname' hb)) (Nat.lt_irrefl _)
    · rw [hget, if_pos hname'] at hb
      cases hb
      exact absurd (h.placed (hold hname ha)) (Nat.lt_irrefl _)
    · exact h.separate (hold hname ha) (hold hname' hb)
  · exact List.getElem?_concat_length
  · intro other hother
    rw [hget, if_neg hother]
  · intro other hother
    cases hn : l.current.get? other with
    | none =>
      rw [present_of_none hn, present_of_none (by rw [hget, if_neg hother, hn])]
      rfl
    | some m =>
      have hplaced := h.placed hn
      rw [present_of_get? hn (h.windows_eq hn)]
      refine present_of_get? (by rw [hget, if_neg hother, hn]) ?_
      exact (List.getElem?_append_left hplaced).trans (h.windows_eq hn)

theorem Sound.put_window (h : l.Sound) (name : String) :
    Put l name (l.window name).1 (l.present name) (l.window name).2 := by
  unfold Limiter.window
  cases hn : l.current.get? name with
  | none =>
    rw [present_of_none hn]
    exact h.put_start name l.standard
  | some n => exact ⟨h, hn, h.windows_eq hn, fun _ => rfl, fun _ => rfl, rfl⟩

theorem Put.modify (h : Put l name n w l') (f : Window → Window) :
    Put l name n (f w) (l'.modify n f) := by
  obtain ⟨hsound, hnumber, hwindow, hnumbers, hothers, hstandard⟩ := h
  refine ⟨⟨?_, hsound.separate⟩, hnumber, ?_, hnumbers, ?_, hstandard⟩
  · intro other m hm
    change m < (l'.windows.modify n f).length
    rw [List.length_modify]
    exact hsound.placed hm
  · change (l'.windows.modify n f)[n]? = _
    rw [List.getElem?_modify_eq, hwindow]
    rfl
  · intro other hother
    rw [← hothers hother]
    cases hm : l'.current.get? other with
    | none => rw [present_of_none hm, present_of_none (l := l'.modify n f) hm]; rfl
    | some m =>
      have hne : n ≠ m := fun hnm => hother (hsound.separate (hnm ▸ hm) hnumber)
      refine present_of_get? (l := l'.modify n f) hm ?_
      exact (List.getElem?_modify_ne f _ hne).trans (hsound.windows_eq hm)

theorem Put.atRest (h : Put l name n w l') (hl : l.AtRest) (hw : w.AtRest) : l'.AtRest := by
  refine ⟨h.sound, fun other => ?_⟩
  by_cases hother : other = name
  · rw [hother, h.present_eq]
    exact hw
  · rw [h.others hother]
    exact hl.resting other

theorem modify_modify (l : Limiter) (n : Nat) (f g : Window → Window) :
    (l.modify n f).modify n g = l.modify n fun w => g (f w) :=
  congrArg (fun windows => ({ l with windows } : Limiter)) (List.modify_modify_eq f g n l.windows)

theorem modify_congr (hw : l.windows[n]? = some w) {f g : Window → Window} (h : f w = g w) :
    l.modify n f = l.modify n g := by
  refine congrArg (fun windows => ({ l with windows } : Limiter)) ?_
  apply List.ext_getElem?
  intro m
  rw [List.getElem?_modify, List.getElem?_modify]
  split
  · rename_i hnm
    rw [← hnm, hw]
    exact congrArg some h
  · rfl

theorem Sound.put (h : l.Sound) (name : String) (w : Window) :
    Put l name (l.number name) w (l.put name w) :=
  (h.put_window name).modify fun _ => w

theorem Sound.present_put (h : l.Sound) (name : String) (w : Window) :
    (l.put name w).present name = w :=
  (h.put name w).present_eq

theorem Sound.arrive_eq (h : l.Sound) (name : String) (caller : Caller) :
    l.arrive name caller = (l.number name, l.put name ((l.present name).join caller)) :=
  congrArg (l.number name, ·) (modify_congr (h.put_window name).window rfl)

theorem Sound.ask_put (h : l.Sound) (name : String) (w : Window) (caller : Caller) (now : Nat) :
    (l.put name w).ask (l.number name) caller now =
      ((w.ask caller now).1, (w.ask caller now).2.first?, l.put name (w.ask caller now).2) := by
  rw [ask, (h.put name w).window]
  exact congrArg (fun l => ((w.ask caller now).1, (w.ask caller now).2.first?, l))
    (modify_modify ..)

theorem Sound.leave_eq (h : l.Sound) (hn : l.current.get? name = some n) (caller : Caller) :
    (l.leave n caller).2 = l.put name ((l.present name).leave caller) := by
  have hwindow : l.window name = (n, l) := by rw [Limiter.window, hn]
  rw [leave, Limiter.put, Limiter.number, hwindow]
  exact modify_congr (h.windows_eq hn) rfl

theorem atRest_ofStandard (standard : Limit) : (ofStandard standard).AtRest :=
  ⟨⟨nofun, nofun⟩, fun _ => Window.atRest_fresh standard⟩

theorem AtRest.configure (h : l.AtRest) (name : String) (limit : Limit) :
    (l.configure name limit).AtRest :=
  (h.put_start name limit).atRest h (Window.atRest_fresh limit)

theorem atRest_ofConfig (standard : Limit) (c : Config) : (ofConfig standard c).AtRest := by
  unfold ofConfig
  generalize hl : ofStandard standard = l
  have h : l.AtRest := hl ▸ atRest_ofStandard standard
  clear hl
  induction c.enabled generalizing l with
  | nil => exact h
  | cons p rest ih => exact ih _ (h.configure p.kind.name p.limit)

end Limiter
end LinkRelay
