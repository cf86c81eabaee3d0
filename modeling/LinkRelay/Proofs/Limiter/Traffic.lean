import LinkRelay.Proofs.Limiter.Admissions
set_option autoImplicit false

/-!
# Traffic at a limiter

All that can happen at a limiter, in any order and at any moments: names are configured, callers
arrive at names, act when the line lets them, and time passes up to the moment at which a sleeper
wakes. `Moves` says what each event does to the desks, and `Moves.lane` and `Moves.lane_other` that
the desks of a name go their own way.
-/

namespace LinkRelay

inductive Event where
  | configure (name : String) (limit : Limit)
  | arrive (name : String) (caller : Caller)
  | act (name : String) (caller : Caller) (a : Act)
  | pass (moment : Nat)
  deriving DecidableEq

namespace Event

def concerns (name : String) : Event → Bool
  | .configure n _ | .arrive n _ | .act n _ _ => n == name
  | .pass _ => true

def follow (name : String) (p : Limit × List Caller) : Event → Limit × List Caller
  | .configure n limit => if n == name then (limit, []) else p
  | .arrive n caller => if n == name then (p.1, p.2 ++ [caller]) else p
  | .act .. | .pass _ => p

def present (name : String) (standard : Limit) (events : List Event) : Limit × List Caller :=
  events.foldl (follow name) (standard, [])

end Event

/-- A limiter with the moment and with what is written down beside each of its windows. -/
structure Traffic where
  limiter : Limiter
  clock : Nat
  books : List Book

namespace Traffic

def opened (standard : Limit) (clock : Nat) : Traffic := ⟨.ofStandard standard, clock, []⟩

def desks (t : Traffic) : List Desk := List.zipWith Desk.mk t.limiter.windows t.books

def lane (t : Traffic) (name : String) : List Desk := t.desks.filter (·.name == name)

def last (standard : Limit) (desks : List Desk) : Limit × List Caller :=
  match desks.getLast? with
  | some d => (d.limit, arrivals d.log)
  | none => (standard, [])

def perform (t : Traffic) (n : Nat) (caller : Caller) : Act → Traffic
  | .ask =>
    let (answer, _, limiter) := t.limiter.ask n caller t.clock
    { t with limiter := limiter, books := t.books.modify n (·.asked caller t.clock answer) }
  | .inspect =>
    let (count, _, limiter) := t.limiter.inspect n caller t.clock
    { t with limiter := limiter
             books := t.books.modify n (·.counted caller t.clock (count.getD 0)) }
  | .leave =>
    { t with limiter := (t.limiter.leave n caller).2
             books := t.books.modify n (·.left caller t.clock) }

inductive Step (t : Traffic) : Event → Traffic → Prop
  | configure (name : String) (limit : Limit) : Step t (.configure name limit)
    ⟨t.limiter.configure name limit, t.clock, t.books ++ [.fresh name]⟩
  | arrive {name : String} {caller : Caller} {n : Nat} (hn : t.limiter.current.get? name = some n)
    (hnew : ∀ d ∈ t.lane name, d.book.knows caller = false) : Step t (.arrive name caller)
    ⟨(t.limiter.arrive name caller).2, t.clock, t.books.modify n (·.note caller t.clock .arrived)⟩
  | arriveFirst {name : String} {caller : Caller} (hn : t.limiter.current.get? name = none) :
    Step t (.arrive name caller) ⟨(t.limiter.arrive name caller).2, t.clock,
      t.books ++ [(Book.fresh name).note caller t.clock .arrived]⟩
  | act {name : String} {caller : Caller} {a : Act} {n : Nat} {d : Desk} (hd : t.desks[n]? = some d)
    (hname : d.name = name) (hmay : d.May caller t.clock a) :
    Step t (.act name caller a) (t.perform n caller a)
  | pass {moment : Nat} (hle : t.clock ≤ moment)
    (hawake : ∀ d ∈ t.desks, ∀ s ∈ d.book.asleep, moment ≤ s.wakes) :
    Step t (.pass moment) { t with clock := moment }

inductive Run (t : Traffic) : List Event → Traffic → Prop
  | nil : Run t [] t
  | snoc {events : List Event} {e : Event} {u v : Traffic} (h : Run t events u) (hstep : Step u e v) :
    Run t (events ++ [e]) v

/-- What an event does to a list of desks, whatever the limiter does behind it. -/
inductive Moves (standard : Limit) (clock : Nat) (desks : List Desk) :
    Event → List Desk → Nat → Prop
  | configure (name : String) (limit : Limit) :
    Moves standard clock desks (.configure name limit) (desks ++ [.fresh name limit]) clock
  | arrive {name : String} {caller : Caller} {before : List Desk} {d : Desk} {after : List Desk}
    (hdesks : desks = before ++ d :: after) (hname : d.name = name)
    (hlast : ∀ e ∈ after, e.name ≠ name)
    (hnew : ∀ e ∈ desks, e.name = name → e.book.knows caller = false) :
    Moves standard clock desks (.arrive name caller) (before ++ d.join caller clock :: after) clock
  | arriveFirst {name : String} {caller : Caller} (hnone : ∀ e ∈ desks, e.name ≠ name) :
    Moves standard clock desks (.arrive name caller)
      (desks ++ [(Desk.fresh name standard).join caller clock]) clock
  | act {name : String} {caller : Caller} {a : Act} {before : List Desk} {d : Desk}
    {after : List Desk} (hdesks : desks = before ++ d :: after) (hname : d.name = name)
    (hmay : d.May caller clock a) :
    Moves standard clock desks (.act name caller a) (before ++ d.act caller clock a :: after) clock
  | pass {moment : Nat} (hle : clock ≤ moment)
    (hawake : ∀ d ∈ desks, ∀ s ∈ d.book.asleep, moment ≤ s.wakes) :
    Moves standard clock desks (.pass moment) desks moment

namespace Moves

variable {standard : Limit} {clock later : Nat} {desks desks' : List Desk} {e : Event}

theorem fresh_name (name : String) (limit : Limit) : (Desk.fresh name limit).name = name := rfl

theorem join_name (d : Desk) (caller : Caller) (now : Nat) : (d.join caller now).name = d.name := rfl

theorem act_name (d : Desk) (caller : Caller) (now : Nat) (a : Act) :
    (d.act caller now a).name = d.name := by
  cases a with
  | ask =>
    change (d.book.asked caller now _).name = d.book.name
    have hlocked : (d.book.locked caller now).name = d.book.name := by
      unfold Book.locked
      split <;> rfl
    cases (d.window.ask caller now).1 with
    | notFirst => rfl
    | neverPossible => exact hlocked
    | admitted => exact hlocked
    | notBefore moment => exact hlocked
  | inspect => rfl
  | leave => rfl

theorem sound (h : Moves standard clock desks e desks' later)
    (hsound : ∀ d ∈ desks, d.Sound clock) : ∀ d ∈ desks', d.Sound later := by
  have hreplace {before after : List Desk} {d d' : Desk} (hdesks : desks = before ++ d :: after)
      (hd : d'.Sound clock) : ∀ x ∈ before ++ d' :: after, x.Sound clock := by
    intro x hx
    rcases List.mem_append.mp hx with hx | hx
    · exact hsound x (hdesks ▸ List.mem_append_left _ hx)
    · rcases List.mem_cons.mp hx with rfl | hx
      · exact hd
      · exact hsound x (hdesks ▸ List.mem_append_right _ (List.mem_cons_of_mem _ hx))
  have hadd {d' : Desk} (hd : d'.Sound clock) : ∀ x ∈ desks ++ [d'], x.Sound clock := by
    intro x hx
    rcases List.mem_append.mp hx with hx | hx
    · exact hsound x hx
    · exact List.mem_singleton.mp hx ▸ hd
  cases h with
  | configure name limit => exact hadd (.fresh name limit clock)
  | @arrive _ _ _ d _ hdesks hname _ hnew =>
    have hmem : d ∈ desks := hdesks ▸ List.mem_append_right _ List.mem_cons_self
    exact hreplace hdesks ((hsound d hmem).join (hnew d hmem hname))
  | arriveFirst => exact hadd ((Desk.Sound.fresh _ _ clock).join rfl)
  | @act _ _ a _ d _ hdesks _ hmay =>
    have hmem : d ∈ desks := hdesks ▸ List.mem_append_right _ List.mem_cons_self
    exact hreplace hdesks ((hsound d hmem).act a hmay)
  | pass hle hawake => exact fun d hd => (hsound d hd).pass hle (hawake d hd)

theorem filter_cons_of_eq {d : Desk} {name : String} (h : d.name = name) (ds : List Desk) :
    (d :: ds).filter (·.name == name) = d :: ds.filter (·.name == name) :=
  List.filter_cons_of_pos (beq_iff_eq.mpr h)

theorem filter_cons_of_ne {d : Desk} {name : String} (h : d.name ≠ name) (ds : List Desk) :
    (d :: ds).filter (·.name == name) = ds.filter (·.name == name) :=
  List.filter_cons_of_neg (by simpa using h)

theorem lane (h : Moves standard clock desks e desks' later) {name : String}
    (he : e.concerns name = true) :
    Moves standard clock (desks.filter (·.name == name)) e (desks'.filter (·.name == name)) later := by
  cases h with
  | configure n limit =>
    obtain rfl : n = name := eq_of_beq he
    rw [List.filter_append, filter_cons_of_eq (fresh_name n limit)]
    exact .configure n limit
  | @arrive n caller before d after hdesks hname hlast hnew =>
    obtain rfl : n = name := eq_of_beq he
    have hafter : after.filter (·.name == n) = [] :=
      List.filter_eq_nil_iff.mpr fun x hx => by simpa using hlast x hx
    rw [List.filter_append, filter_cons_of_eq ((join_name ..).trans hname), hafter]
    refine .arrive ?_ hname nofun fun x hx => hnew x ((List.mem_filter.mp hx).1)
    rw [hdesks, List.filter_append, filter_cons_of_eq hname, hafter]
  | @arriveFirst n caller hnone =>
    obtain rfl : n = name := eq_of_beq he
    rw [List.filter_append, filter_cons_of_eq ((join_name ..).trans (fresh_name ..))]
    exact .arriveFirst fun x hx => hnone x ((List.mem_filter.mp hx).1)
  | @act n caller a before d after hdesks hname hmay =>
    obtain rfl : n = name := eq_of_beq he
    rw [List.filter_append, filter_cons_of_eq ((act_name ..).trans hname)]
    refine .act ?_ hname hmay
    rw [hdesks, List.filter_append, filter_cons_of_eq hname]
  | pass hle hawake => exact .pass hle fun d hd => hawake d ((List.mem_filter.mp hd).1)

theorem lane_other (h : Moves standard clock desks e desks' later) {name : String}
    (he : e.concerns name = false) :
    desks'.filter (·.name == name) = desks.filter (·.name == name) ∧ later = clock := by
  cases h with
  | configure n limit =>
    rw [List.filter_append, filter_cons_of_ne (ne_of_beq_false he)]
    exact ⟨List.append_nil _, rfl⟩
  | @arrive n caller before d after hdesks hname =>
    have hne : d.name ≠ name := hname ▸ ne_of_beq_false he
    rw [hdesks, List.filter_append, List.filter_append, filter_cons_of_ne hne,
      filter_cons_of_ne ((join_name ..).trans_ne hne)]
    exact ⟨rfl, rfl⟩
  | arriveFirst =>
    rw [List.filter_append, filter_cons_of_ne (ne_of_beq_false he)]
    exact ⟨List.append_nil _, rfl⟩
  | @act n caller a before d after hdesks hname =>
    have hne : d.name ≠ name := hname ▸ ne_of_beq_false he
    rw [hdesks, List.filter_append, List.filter_append, filter_cons_of_ne hne,
      filter_cons_of_ne ((act_name ..).trans_ne hne)]
    exact ⟨rfl, rfl⟩
  | pass => cases he

theorem arrivals_append (log : List Entry) (e : Entry) :
    arrivals (log ++ [e]) = arrivals log ++ e.arrived?.toList := by
  rw [arrivals, List.filterMap_append, arrivals]
  cases h : e.arrived? with
  | none => rw [List.filterMap_cons_none h]; rfl
  | some c => rw [List.filterMap_cons_some h]; rfl

theorem arrivals_note (b : Book) (caller : Caller) (now : Nat) (deed : Deed) (h : deed ≠ .arrived) :
    arrivals (b.note caller now deed).log = arrivals b.log := by
  refine (arrivals_append ..).trans ?_
  rw [Entry.arrived?, if_neg h]
  exact List.append_nil _

theorem arrivals_locked (b : Book) (caller : Caller) (now : Nat) :
    arrivals (b.locked caller now).log = arrivals b.log := by
  unfold Book.locked
  split
  · rfl
  · exact arrivals_note b caller now .locked nofun

theorem act_last (d : Desk) (caller : Caller) (now : Nat) (a : Act) :
    (d.act caller now a).limit = d.limit ∧
      arrivals (d.act caller now a).log = arrivals d.log := by
  cases a with
  | ask =>
    constructor
    · change (d.window.ask caller now).2.limit = _
      unfold Window.ask
      split
      · rfl
      · split
        · rfl
        · dsimp only
          split <;> rfl
    · change arrivals (d.book.asked caller now _).log = _
      cases (d.window.ask caller now).1 with
      | notFirst => rfl
      | neverPossible => exact (arrivals_note _ _ _ .refused nofun).trans (arrivals_locked ..)
      | admitted => exact (arrivals_note _ _ _ (.admitted _) nofun).trans (arrivals_locked ..)
      | notBefore moment => exact arrivals_locked ..
  | inspect =>
    constructor
    · change (d.window.inspect caller now).2.limit = _
      unfold Window.inspect
      split <;> rfl
    · exact (arrivals_note _ _ _ (.counted _) nofun).trans (arrivals_note _ _ _ .locked nofun)
  | leave => exact ⟨rfl, arrivals_note _ _ _ .abandoned nofun⟩

theorem last_append_singleton (standard : Limit) (desks : List Desk) (d : Desk) :
    last standard (desks ++ [d]) = (d.limit, arrivals d.log) := by
  rw [last, List.getLast?_append]
  rfl

theorem last_replace (before after : List Desk) {d d' : Desk} (hlimit : d'.limit = d.limit)
    (harrivals : arrivals d'.log = arrivals d.log) :
    last standard (before ++ d' :: after) = last standard (before ++ d :: after) := by
  rcases List.eq_nil_or_concat after with rfl | ⟨after, x, rfl⟩
  · rw [last_append_singleton, last_append_singleton, hlimit, harrivals]
  · rw [List.concat_eq_append, ← List.cons_append, ← List.append_assoc, last_append_singleton,
      ← List.cons_append, ← List.append_assoc, last_append_singleton]

theorem last_lane (h : Moves standard clock desks e desks' later) (name : String) :
    last standard (desks'.filter (·.name == name)) =
      e.follow name (last standard (desks.filter (·.name == name))) := by
  cases he : e.concerns name with
  | false =>
    rw [(h.lane_other he).1]
    cases e with
    | configure n limit | arrive n caller =>
      have hne : ¬ (n == name) = true := fun h => Bool.false_ne_true (he.symm.trans h)
      exact (if_neg hne).symm
    | act | pass => rfl
  | true =>
    have hname : ∀ x ∈ desks.filter (·.name == name), x.name = name :=
      fun x hx => eq_of_beq (List.mem_filter.mp hx).2
    have hlane := h.lane he
    generalize desks.filter (·.name == name) = lane at *
    generalize desks'.filter (·.name == name) = lane' at *
    cases hlane with
    | configure n limit =>
      rw [last_append_singleton]
      exact (if_pos he).symm
    | @arrive n caller before d after hdesks _ hlast =>
      obtain rfl : n = name := eq_of_beq he
      have hafter : after = [] := by
        cases after with
        | nil => rfl
        | cons x after =>
          have hx : x ∈ lane := hdesks ▸ List.mem_append_right _ (List.mem_cons_of_mem _ List.mem_cons_self)
          exact absurd (hname x hx) (hlast x List.mem_cons_self)
      rw [hdesks, hafter, last_append_singleton, last_append_singleton]
      refine Eq.trans ?_ (if_pos he).symm
      exact congrArg (d.limit, ·) (arrivals_append ..)
    | @arriveFirst n caller hnone =>
      obtain rfl : n = name := eq_of_beq he
      have hnil : lane = [] := List.eq_nil_iff_forall_not_mem.mpr fun x hx => hnone x hx (hname x hx)
      rw [hnil, last_append_singleton]
      exact (if_pos he).symm
    | @act _ caller a before d after hdesks =>
      rw [hdesks]
      exact last_replace before after (act_last ..).1 (act_last ..).2
    | pass => rfl

end Moves

end Traffic

end LinkRelay
