import LinkRelay.Proofs.Dictionary
import LinkRelay.Proofs.Limiter.Traffic
set_option autoImplicit false

/-!
# Runs of a limiter

The limiter finds the present window of a name by number. `Linked` ties the numbers to the order in
which windows were started, and with it every step of a limiter is a move of the desks and every
move is a step. `traffic_of_run` says what every run keeps for every name.
-/

namespace LinkRelay.Traffic

def IsLast (names : List String) (name : String) (n : Nat) : Prop :=
  names[n]? = some name ∧ ∀ m, n < m → names[m]? ≠ some name

theorem isLast_append_singleton (names : List String) (x name : String) (n : Nat) :
    IsLast (names ++ [x]) name n ↔ if name = x then n = names.length else IsLast names name n := by
  have hget (m : Nat) : (names ++ [x])[m]? = some name ↔
      names[m]? = some name ∨ m = names.length ∧ name = x := by
    rcases Nat.lt_trichotomy m names.length with hlt | rfl | hgt
    · rw [List.getElem?_append_left hlt]
      constructor
      · exact .inl
      · rintro (h | ⟨rfl, -⟩)
        · exact h
        · exact absurd hlt (Nat.lt_irrefl _)
    · rw [List.getElem?_append_right (Nat.le_refl _), Nat.sub_self, List.getElem?_eq_none (Nat.le_refl _)]
      simp [eq_comm]
    · rw [List.getElem?_eq_none (by rw [List.length_append]; exact hgt),
        List.getElem?_eq_none (Nat.le_of_lt hgt)]
      simp only [reduceCtorEq, false_or, false_iff, not_and]
      omega
  simp only [IsLast, hget, ne_eq]
  split
  · rename_i hx
    constructor
    · rintro ⟨h, hlater⟩
      have hn : ¬ n < names.length := fun hlt => (hlater names.length hlt) (.inr ⟨rfl, hx⟩)
      rcases h with h | h
      · exact absurd (List.getElem?_eq_some_iff.mp h).1 hn
      · exact h.1
    · rintro rfl
      refine ⟨.inr ⟨rfl, hx⟩, ?_⟩
      rintro m hm (h | h)
      · rw [List.getElem?_eq_none (Nat.le_of_lt hm)] at h
        cases h
      · omega
  · rename_i hx
    simp only [hx, and_false, or_false]

theorem isLast_split (before after : List String) (x name : String) :
    IsLast (before ++ x :: after) name before.length ↔ x = name ∧ name ∉ after := by
  have hplace : (before ++ x :: after)[before.length]? = some x := by
    rw [List.getElem?_append_right (Nat.le_refl _), Nat.sub_self]
    rfl
  have hafter (m : Nat) : (before ++ x :: after)[before.length + 1 + m]? = after[m]? := by
    rw [List.getElem?_append_right (by omega), show before.length + 1 + m - before.length = m + 1 by omega]
    rfl
  rw [IsLast, hplace, Option.some_inj]
  refine and_congr_right fun _ => ?_
  constructor
  · intro h hmem
    obtain ⟨m, hm⟩ := List.mem_iff_getElem?.mp hmem
    exact h (before.length + 1 + m) (by omega) ((hafter m).trans hm)
  · intro h m hm hname
    obtain ⟨k, rfl⟩ := Nat.exists_eq_add_of_lt hm
    rw [Nat.add_right_comm, hafter] at hname
    exact h (List.mem_of_getElem? hname)

/-- The limiter and the books belong together: a book for each window, and a name's present window
    is the last one started for it. -/
structure Linked (t : Traffic) : Prop where
  paired : t.limiter.windows.length = t.books.length
  present : ∀ name n, t.limiter.current.get? name = some n ↔ IsLast (t.books.map (·.name)) name n

theorem linked_opened (standard : Limit) (clock : Nat) : (opened standard clock).Linked := by
  refine ⟨rfl, ?_⟩
  intro name n
  constructor
  · intro h
    cases h
  · rintro ⟨h, -⟩
    cases h

variable {t u : Traffic} {before after : List Desk} {d : Desk}

theorem zipWith_modify {ws : List Window} {bs : List Book}
    (h : List.zipWith Desk.mk ws bs = before ++ d :: after) (f : Window → Window) (g : Book → Book) :
    List.zipWith Desk.mk (ws.modify before.length f) (bs.modify before.length g) =
      before ++ ⟨f d.window, g d.book⟩ :: after := by
  induction before generalizing ws bs with
  | nil =>
    obtain ⟨w, ws, b, bs, rfl, rfl, rfl, rfl⟩ := List.zipWith_eq_cons_iff.mp h
    rfl
  | cons x before ih =>
    obtain ⟨w, ws, b, bs, rfl, rfl, rfl, hrest⟩ := List.zipWith_eq_cons_iff.mp h
    exact congrArg (Desk.mk w b :: ·) (ih hrest.symm)

theorem window_of_desks (h : t.desks = before ++ d :: after) :
    t.limiter.windows[before.length]? = some d.window := by
  have hd : t.desks[before.length]? = some d := by
    rw [h, List.getElem?_append_right (Nat.le_refl _), Nat.sub_self]
    rfl
  obtain ⟨w, b, hw, -, rfl⟩ := List.getElem?_zipWith_eq_some.mp hd
  exact hw

theorem names_desks (h : t.Linked) : t.desks.map (·.name) = t.books.map (·.name) := by
  have hzip (ws : List Window) (bs : List Book) (hlength : ws.length = bs.length) :
      (List.zipWith Desk.mk ws bs).map (·.name) = bs.map (·.name) := by
    induction ws generalizing bs with
    | nil =>
      rw [List.length_eq_zero_iff.mp hlength.symm]
      rfl
    | cons w ws ih =>
      cases bs with
      | nil => cases hlength
      | cons b bs => exact congrArg (b.name :: ·) (ih bs (Nat.succ.inj hlength))
  exact hzip _ _ h.paired

theorem desks_append (h : t.Linked) (w : Window) (b : Book) :
    List.zipWith Desk.mk (t.limiter.windows ++ [w]) (t.books ++ [b]) = t.desks ++ [⟨w, b⟩] :=
  List.zipWith_append h.paired

theorem map_name_modify (bs : List Book) (n : Nat) (f : Book → Book) (hf : ∀ b, (f b).name = b.name) :
    (bs.modify n f).map (·.name) = bs.map (·.name) := by
  apply List.ext_getElem?
  intro i
  rw [List.getElem?_map, List.getElem?_map, List.getElem?_modify]
  split
  · cases bs[i]? with
    | none => rfl
    | some b => exact congrArg some (hf b)
  · cases bs[i]? <;> rfl

theorem perform_eq {caller : Caller} {a : Act} (h : t.desks = before ++ d :: after)
    (hmay : d.May caller t.clock a) :
    ∃ (f : Window → Window) (g : Book → Book), (∀ b, (g b).name = b.name) ∧
      t.perform before.length caller a =
        ⟨t.limiter.modify before.length f, t.clock, t.books.modify before.length g⟩ ∧
      (⟨f d.window, g d.book⟩ : Desk) = d.act caller t.clock a := by
  have hw := window_of_desks h
  cases a with
  | ask =>
    refine ⟨fun _ => (d.window.ask caller t.clock).2,
      (·.asked caller t.clock (d.window.ask caller t.clock).1), ?_, ?_, rfl⟩
    · intro b
      exact Moves.act_name ⟨d.window, b⟩ caller t.clock .ask
    · rw [perform, Limiter.ask, hw]
  | inspect =>
    have hinspect : d.window.inspect caller t.clock =
        (some (d.window.count t.clock), (d.window.prune t.clock).leave caller) :=
      if_neg (not_not_intro hmay.1)
    refine ⟨fun _ => (d.window.inspect caller t.clock).2,
      (·.counted caller t.clock (d.window.count t.clock)), fun _ => rfl, ?_, rfl⟩
    rw [perform, Limiter.inspect, hw]
    simp only [hinspect, Option.getD_some]
  | leave => exact ⟨(·.leave caller), (·.left caller t.clock), fun _ => rfl, rfl, rfl⟩

theorem Linked.modify (hl : t.Linked) (h : t.desks = before ++ d :: after) {f : Window → Window}
    {g : Book → Book} (hg : ∀ b, (g b).name = b.name)
    (hu : u = ⟨t.limiter.modify before.length f, t.clock, t.books.modify before.length g⟩) :
    u.Linked ∧ u.desks = before ++ ⟨f d.window, g d.book⟩ :: after := by
  subst hu
  refine ⟨⟨?_, ?_⟩, zipWith_modify h f g⟩
  · change (t.limiter.windows.modify before.length f).length = _
    rw [List.length_modify, List.length_modify]
    exact hl.paired
  · intro name n
    rw [map_name_modify _ _ _ hg]
    exact hl.present name n

theorem Linked.start (hl : t.Linked) (name : String) (limit : Limit) :
    Linked ⟨t.limiter.start name limit, t.clock, t.books ++ [.fresh name]⟩ ∧
      desks ⟨t.limiter.start name limit, t.clock, t.books ++ [.fresh name]⟩ =
        t.desks ++ [.fresh name limit] := by
  refine ⟨⟨?_, ?_⟩, desks_append hl _ _⟩
  · change (t.limiter.windows ++ [_]).length = _
    rw [List.length_append, List.length_append, hl.paired]
    rfl
  · intro other n
    change (t.limiter.current.insert name t.limiter.windows.length).get? other = some n ↔ _
    rw [Dictionary.get?_insert, List.map_append, List.map_singleton, isLast_append_singleton]
    split
    · rename_i hname
      rw [if_pos (by exact hname), Option.some_inj, hl.paired, List.length_map, eq_comm]
    · rename_i hname
      rw [if_neg (by exact hname)]
      exact hl.present other n

theorem Linked.get?_eq_some_iff (hl : t.Linked) (h : t.desks = before ++ d :: after) (name : String) :
    t.limiter.current.get? name = some before.length ↔
      d.name = name ∧ ∀ e ∈ after, e.name ≠ name := by
  rw [hl.present, ← names_desks hl, h, List.map_append, List.map_cons,
    ← List.length_map (f := Desk.name), isLast_split]
  simp only [List.mem_map, not_exists, not_and]

theorem split_of_getElem? {n : Nat} (h : t.desks[n]? = some d) :
    ∃ before after, t.desks = before ++ d :: after ∧ before.length = n := by
  obtain ⟨hn, hd⟩ := List.getElem?_eq_some_iff.mp h
  refine ⟨t.desks.take n, t.desks.drop (n + 1), ?_, List.length_take_of_le (Nat.le_of_lt hn)⟩
  rw [← hd, List.getElem_cons_drop, List.take_append_drop]

theorem Linked.split (hl : t.Linked) {name : String} {n : Nat}
    (h : t.limiter.current.get? name = some n) :
    ∃ before d after, t.desks = before ++ d :: after ∧ before.length = n ∧ d.name = name ∧
      ∀ e ∈ after, e.name ≠ name := by
  have hplace := ((hl.present name n).mp h).1
  rw [← names_desks hl, List.getElem?_map, Option.map_eq_some_iff] at hplace
  obtain ⟨d, hd, -⟩ := hplace
  obtain ⟨before, after, hsplit, rfl⟩ := split_of_getElem? hd
  exact ⟨before, d, after, hsplit, rfl, (hl.get?_eq_some_iff hsplit name).mp h⟩

theorem exists_last {desks : List Desk} {name : String} (h : ∃ e ∈ desks, e.name = name) :
    ∃ before d after, desks = before ++ d :: after ∧ d.name = name ∧ ∀ e ∈ after, e.name ≠ name := by
  induction desks with
  | nil =>
    obtain ⟨e, he, -⟩ := h
    cases he
  | cons x rest ih =>
    by_cases hrest : ∃ e ∈ rest, e.name = name
    · obtain ⟨before, d, after, rfl, hd, hafter⟩ := ih hrest
      exact ⟨x :: before, d, after, rfl, hd, hafter⟩
    · obtain ⟨e, he, hname⟩ := h
      rcases List.mem_cons.mp he with rfl | he
      · exact ⟨[], e, rest, rfl, hname, fun e' he' hname' => hrest ⟨e', he', hname'⟩⟩
      · exact absurd ⟨e, he, hname⟩ hrest

theorem Linked.get?_eq_none_iff (hl : t.Linked) (name : String) :
    t.limiter.current.get? name = none ↔ ∀ e ∈ t.desks, e.name ≠ name := by
  constructor
  · intro hnone e he hname
    obtain ⟨before, d, after, hsplit, hlast⟩ := exists_last ⟨e, he, hname⟩
    rw [(hl.get?_eq_some_iff hsplit name).mpr hlast] at hnone
    cases hnone
  · intro h
    cases hn : t.limiter.current.get? name with
    | none => rfl
    | some n =>
      obtain ⟨before, d, after, hsplit, -, hname, -⟩ := hl.split hn
      exact absurd hname (h d (hsplit ▸ List.mem_append_right _ List.mem_cons_self))

theorem Linked.length_desks (hl : t.Linked) : t.desks.length = t.limiter.windows.length := by
  rw [desks, List.length_zipWith, hl.paired, Nat.min_self]

theorem arrive_of_some {name : String} {n : Nat} (hn : t.limiter.current.get? name = some n)
    (caller : Caller) :
    (t.limiter.arrive name caller).2 = t.limiter.modify n (·.join caller) := by
  rw [Limiter.arrive, Limiter.window, hn]

theorem Linked.arriveFirst (hl : t.Linked) {name : String} {caller : Caller}
    (hn : t.limiter.current.get? name = none)
    (hu : u = ⟨(t.limiter.arrive name caller).2, t.clock,
      t.books ++ [(Book.fresh name).note caller t.clock .arrived]⟩) :
    u.Linked ∧ u.desks = t.desks ++ [(Desk.fresh name t.limiter.standard).join caller t.clock] := by
  obtain ⟨hstarted, hdesks⟩ := hl.start name t.limiter.standard
  have harrive : (t.limiter.arrive name caller).2 =
      (t.limiter.start name t.limiter.standard).modify t.desks.length (·.join caller) := by
    rw [Limiter.arrive, Limiter.window, hn, hl.length_desks]
  have hbooks : t.books ++ [(Book.fresh name).note caller t.clock .arrived] =
      (t.books ++ [Book.fresh name]).modify t.desks.length (·.note caller t.clock .arrived) := by
    rw [hl.length_desks, hl.paired, List.modify_eq_take_drop, List.take_left, List.drop_left]
    rfl
  rw [harrive, hbooks] at hu
  exact hstarted.modify hdesks (g := (·.note caller t.clock .arrived)) (fun _ => rfl) hu

theorem mem_lane {name : String} : d ∈ t.lane name ↔ d ∈ t.desks ∧ d.name = name := by
  rw [lane, List.mem_filter, beq_iff_eq]

theorem Linked.step {e : Event} (hl : t.Linked) (h : Step t e u) :
    u.Linked ∧ u.limiter.standard = t.limiter.standard ∧
      Moves t.limiter.standard t.clock t.desks e u.desks u.clock := by
  cases h with
  | configure name limit =>
    obtain ⟨hu, hdesks⟩ := hl.start name limit
    exact ⟨hu, rfl, hdesks ▸ .configure name limit⟩
  | @arrive name caller n hn hnew =>
    obtain ⟨before, d, after, hsplit, rfl, hname, hlast⟩ := hl.split hn
    obtain ⟨hu, hdesks⟩ := hl.modify hsplit (g := (·.note caller t.clock .arrived)) (fun _ => rfl) rfl
    rw [arrive_of_some hn]
    refine ⟨hu, rfl, ?_⟩
    rw [hdesks]
    exact .arrive hsplit hname hlast fun x hx hx' => hnew x (mem_lane.mpr ⟨hx, hx'⟩)
  | @arriveFirst name caller hn =>
    obtain ⟨hu, hdesks⟩ := hl.arriveFirst hn rfl
    refine ⟨hu, ?_, ?_⟩
    · change (t.limiter.arrive name caller).2.standard = _
      rw [Limiter.arrive, Limiter.window, hn]
      rfl
    · rw [hdesks]
      exact .arriveFirst ((hl.get?_eq_none_iff name).mp hn)
  | @act name caller a n d hd hname hmay =>
    obtain ⟨before, after, hsplit, rfl⟩ := split_of_getElem? hd
    obtain ⟨f, g, hg, hperform, hact⟩ := perform_eq hsplit hmay
    obtain ⟨hu, hdesks⟩ := hl.modify hsplit hg hperform
    refine ⟨hu, by rw [hperform]; rfl, ?_⟩
    rw [hdesks, hact, hperform]
    exact .act hsplit hname hmay
  | @pass moment hle hawake =>
    exact ⟨⟨hl.paired, hl.present⟩, rfl, .pass hle hawake⟩

theorem Linked.exists_step {e : Event} {desks : List Desk} {later : Nat} (hl : t.Linked)
    (h : Moves t.limiter.standard t.clock t.desks e desks later) :
    ∃ u, Step t e u ∧ u.desks = desks ∧ u.clock = later := by
  cases h with
  | configure name limit => exact ⟨_, .configure name limit, (hl.start name limit).2, rfl⟩
  | @arrive name caller before d after hsplit hname hlast hnew =>
    have hn := (hl.get?_eq_some_iff hsplit name).mpr ⟨hname, hlast⟩
    refine ⟨_, .arrive hn fun x hx => hnew x (mem_lane.mp hx).1 (mem_lane.mp hx).2, ?_, rfl⟩
    rw [arrive_of_some hn]
    exact zipWith_modify hsplit _ _
  | @arriveFirst name caller hnone =>
    have hn := (hl.get?_eq_none_iff name).mpr hnone
    exact ⟨_, .arriveFirst hn, (hl.arriveFirst hn rfl).2, rfl⟩
  | @act name caller a before d after hsplit hname hmay =>
    obtain ⟨f, g, hg, hperform, hact⟩ := perform_eq hsplit hmay
    have hd : t.desks[before.length]? = some d := by
      rw [hsplit, List.getElem?_append_right (Nat.le_refl _), Nat.sub_self]
      rfl
    refine ⟨_, .act hd hname hmay, ?_, ?_⟩
    · rw [hperform, ← hact]
      exact zipWith_modify hsplit f g
    · rw [hperform]
  | @pass moment hle hawake => exact ⟨_, .pass hle hawake, rfl, rfl⟩

variable {standard : Limit} {clock : Nat} {events : List Event}

theorem linked_of_run (h : Run (opened standard clock) events t) :
    t.Linked ∧ t.limiter.standard = standard := by
  induction h with
  | nil => exact ⟨linked_opened standard clock, rfl⟩
  | snoc _ hstep ih =>
    obtain ⟨hl, hs⟩ := ih
    obtain ⟨hl', hs', -⟩ := hl.step hstep
    exact ⟨hl', hs'.trans hs⟩

theorem sound_of_run (h : Run (opened standard clock) events t) : ∀ d ∈ t.desks, d.Sound t.clock := by
  induction h with
  | nil => nofun
  | snoc hrun hstep ih => exact ((linked_of_run hrun).1.step hstep).2.2.sound ih

/-- Leaving out the events of other names leaves all that happens at a name. -/
theorem exists_run_lane (name : String) (h : Run (opened standard clock) events t) :
    ∃ u, Run (opened standard clock) (events.filter (·.concerns name)) u ∧
      u.desks = t.lane name ∧ u.clock = t.clock := by
  induction h with
  | nil => exact ⟨_, .nil, rfl, rfl⟩
  | @snoc events e t v hrun hstep ih =>
    obtain ⟨u, hu, hdesks, hclock⟩ := ih
    obtain ⟨hlinked, hstandard⟩ := linked_of_run hrun
    obtain ⟨hul, hus⟩ := linked_of_run hu
    obtain ⟨-, -, hmoves⟩ := hlinked.step hstep
    rw [List.filter_append]
    cases he : e.concerns name with
    | true =>
      have hlane := hmoves.lane he
      rw [hstandard, ← hus, ← hclock, show t.desks.filter (·.name == name) = _ from hdesks.symm] at hlane
      obtain ⟨x, hx, hxdesks, hxclock⟩ := hul.exists_step hlane
      rw [List.filter_cons_of_pos he]
      exact ⟨x, hu.snoc hx, hxdesks, hxclock⟩
    | false =>
      obtain ⟨hsame, hlater⟩ := hmoves.lane_other he
      rw [List.filter_cons_of_neg (by rw [he]; exact Bool.false_ne_true), List.filter_nil,
        List.append_nil]
      exact ⟨u, hu, hdesks.trans hsame.symm, hclock.trans hlater.symm⟩

theorem last_of_run (name : String) (h : Run (opened standard clock) events t) :
    last standard (t.lane name) = Event.present name standard events := by
  induction h with
  | nil => rfl
  | snoc hrun hstep ih =>
    obtain ⟨hl, hs⟩ := linked_of_run hrun
    have hmoves := (hl.step hstep).2.2
    rw [hs] at hmoves
    rw [Event.present, List.foldl_append, ← Event.present, ← ih]
    exact hmoves.last_lane name

/-- In every run from a fresh limiter, every desk of every name keeps what `Desk.Keeps` says: the
    quota in every window, admissions in the order of the lock and exactly when they are due, and
    right counts. The last desk of a name is that of its last limit and of the callers who came
    since. And all of it is as if the events of other names had not been. -/
theorem traffic_of_run (h : Run (opened standard clock) events t) (name : String) :
    (∀ d ∈ t.lane name, d.Keeps t.clock) ∧
    last standard (t.lane name) = Event.present name standard events ∧
    ∃ u, Run (opened standard clock) (events.filter (·.concerns name)) u ∧
      u.desks = t.lane name ∧ u.clock = t.clock := by
  refine ⟨?_, last_of_run name h, exists_run_lane name h⟩
  intro d hd
  exact (sound_of_run h d (mem_lane.mp hd).1).keeps

/-- One call in ten moments. The first caller is admitted at once, the second gives up while it
    sleeps, and the third gets the lock then and is admitted when the first admission is over. -/
theorem traffic_of_run_waiting :
    let events : List Event :=
      [.configure "p" ⟨10, 1⟩, .arrive "p" 1, .act "p" 1 .ask, .arrive "p" 2, .act "p" 2 .ask,
       .arrive "p" 3, .pass 4, .act "p" 2 .leave, .act "p" 3 .ask, .arrive "q" 1, .act "q" 1 .ask,
       .pass 10, .act "p" 3 .ask]
    ∃ t, Run (opened ⟨1000, 5⟩ 0) events t ∧
      (t.lane "p").map (fun d => admissions d.log) = [[⟨1, 0, 0⟩, ⟨3, 4, 10⟩]] ∧
      (∀ d ∈ t.lane "p", d.Keeps t.clock) ∧
      last ⟨1000, 5⟩ (t.lane "p") = (⟨10, 1⟩, [1, 2, 3]) := by
  intro events
  have h := (Run.nil : Run (opened ⟨1000, 5⟩ 0) [] _)
    |>.snoc (.configure "p" ⟨10, 1⟩)
    |>.snoc (.arrive (n := 0) rfl (by decide) : Step _ (.arrive "p" 1) _)
    |>.snoc (.act (n := 0) rfl rfl (by decide) : Step _ (.act "p" 1 .ask) _)
    |>.snoc (.arrive (n := 0) rfl (by decide) : Step _ (.arrive "p" 2) _)
    |>.snoc (.act (n := 0) rfl rfl (by decide) : Step _ (.act "p" 2 .ask) _)
    |>.snoc (.arrive (n := 0) rfl (by decide) : Step _ (.arrive "p" 3) _)
    |>.snoc (.pass (by decide) (by decide) : Step _ (.pass 4) _)
    |>.snoc (.act (n := 0) rfl rfl (by decide) : Step _ (.act "p" 2 .leave) _)
    |>.snoc (.act (n := 0) rfl rfl (by decide) : Step _ (.act "p" 3 .ask) _)
    |>.snoc (.arriveFirst rfl : Step _ (.arrive "q" 1) _)
    |>.snoc (.act (n := 1) rfl rfl (by decide) : Step _ (.act "q" 1 .ask) _)
    |>.snoc (.pass (by decide) (by decide) : Step _ (.pass 10) _)
    |>.snoc (.act (n := 0) rfl rfl (by decide) : Step _ (.act "p" 3 .ask) _)
  obtain ⟨hkeeps, hlast, -⟩ := traffic_of_run (show Run _ events _ from h) "p"
  exact ⟨_, h, by decide, hkeeps, hlast⟩

end LinkRelay.Traffic
