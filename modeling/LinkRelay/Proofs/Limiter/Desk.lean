import LinkRelay.Limiter
set_option autoImplicit false

/-!
# A window and its callers

A desk is a window with a log of what happened to its callers and a note of who has the lock and
sleeps. Callers join the line, ask for admission, ask for the count, or give up, in any order and
at any moments. `Desk.Keeps` says what the log of such a desk can be; `Desk.Sound` is the
invariant that carries it.
-/

namespace LinkRelay

/-- What happened to a caller. An admission names the moment at which the caller got the lock. -/
inductive Deed where
  | arrived
  | locked
  | admitted (since : Nat)
  | refused
  | counted (n : Nat)
  | abandoned
  deriving DecidableEq

def Deed.isFinal : Deed → Bool
  | .arrived | .locked => false
  | .admitted _ | .refused | .counted _ | .abandoned => true

def Deed.isPlain : Deed → Bool
  | .arrived | .locked | .refused | .abandoned => true
  | .admitted _ | .counted _ => false

structure Entry where
  caller : Caller
  moment : Nat
  deed : Deed
  deriving DecidableEq

structure Admitted where
  caller : Caller
  since : Nat
  moment : Nat
  deriving DecidableEq

namespace Entry

def admitted? (e : Entry) : Option Admitted :=
  match e.deed with
  | .admitted since => some ⟨e.caller, since, e.moment⟩
  | _ => none

def locked? (e : Entry) : Option (Caller × Nat) :=
  if e.deed = .locked then some (e.caller, e.moment) else none

def arrived? (e : Entry) : Option Caller := if e.deed = .arrived then some e.caller else none

end Entry

def admissions (log : List Entry) : List Admitted := log.filterMap (·.admitted?)

def moments (log : List Entry) : List Nat := (admissions log).map (·.moment)

def locks (log : List Entry) : List (Caller × Nat) := log.filterMap (·.locked?)

def arrivals (log : List Entry) : List Caller := log.filterMap (·.arrived?)

namespace Limit

def covers (limit : Limit) (now moment : Nat) : Bool :=
  now < moment + limit.windowMs && moment ≤ now

/-- The moment at which a caller is due who got the lock at some moment: then, or, where as many
    admissions as the quota came before, not before the earliest of the latest so many leaves the
    window. -/
def due (limit : Limit) (previous : List Nat) (since : Nat) : Nat :=
  match previous.reverse[limit.quota - 1]? with
  | some moment => max since (moment + limit.windowMs)
  | none => since

end Limit

structure Sleeper where
  caller : Caller
  since : Nat
  wakes : Nat

/-- What is written down beside a window. -/
structure Book where
  name : String
  asleep : Option Sleeper
  log : List Entry

namespace Book

def fresh (name : String) : Book := ⟨name, none, []⟩

def knows (b : Book) (caller : Caller) : Bool := b.log.any (·.caller == caller)

def note (b : Book) (caller : Caller) (now : Nat) (deed : Deed) : Book :=
  { b with log := b.log ++ [⟨caller, now, deed⟩] }

def since (b : Book) (now : Nat) : Nat := (b.asleep.map (·.since)).getD now

def locked (b : Book) (caller : Caller) (now : Nat) : Book :=
  if b.asleep.isSome then b else b.note caller now .locked

def asked (b : Book) (caller : Caller) (now : Nat) : Admission → Book
  | .notFirst => b
  | .neverPossible => { (b.locked caller now).note caller now .refused with asleep := none }
  | .admitted =>
    { (b.locked caller now).note caller now (.admitted (b.since now)) with asleep := none }
  | .notBefore moment => { b.locked caller now with asleep := some ⟨caller, b.since now, moment⟩ }

def counted (b : Book) (caller : Caller) (now n : Nat) : Book :=
  (b.note caller now .locked).note caller now (.counted n)

def left (b : Book) (caller : Caller) (now : Nat) : Book :=
  { b.note caller now .abandoned with asleep := b.asleep.filter (·.caller ≠ caller) }

end Book

structure Desk where
  window : Window
  book : Book

inductive Act where
  | ask
  | inspect
  | leave
  deriving DecidableEq

namespace Desk

variable {d : Desk} {caller : Caller} {now : Nat}

def name (d : Desk) : String := d.book.name

def log (d : Desk) : List Entry := d.book.log

def limit (d : Desk) : Limit := d.window.limit

def fresh (name : String) (limit : Limit) : Desk := ⟨.fresh limit, .fresh name⟩

def join (d : Desk) (caller : Caller) (now : Nat) : Desk :=
  ⟨d.window.join caller, d.book.note caller now .arrived⟩

/-- Whether a caller can act. The line is served in order: whoever is first has the lock, and if it
    sleeps it does not wake before its time. Any caller in line can give up. -/
def May (d : Desk) (caller : Caller) (now : Nat) : Act → Prop
  | .ask => d.window.first? = some caller ∧ ∀ s ∈ d.book.asleep, s.wakes ≤ now
  | .inspect => d.window.first? = some caller ∧ d.book.asleep = none
  | .leave => caller ∈ d.window.line

instance (d : Desk) (caller : Caller) (now : Nat) : (a : Act) → Decidable (d.May caller now a)
  | .ask => inferInstanceAs (Decidable (_ ∧ ∀ s ∈ d.book.asleep, s.wakes ≤ now))
  | .inspect => inferInstanceAs (Decidable (_ ∧ d.book.asleep = none))
  | .leave => inferInstanceAs (Decidable (caller ∈ d.window.line))

def act (d : Desk) (caller : Caller) (now : Nat) : Act → Desk
  | .ask => ⟨(d.window.ask caller now).2, d.book.asked caller now (d.window.ask caller now).1⟩
  | .inspect => ⟨(d.window.inspect caller now).2, d.book.counted caller now (d.window.count now)⟩
  | .leave => ⟨d.window.leave caller, d.book.left caller now⟩

/-- What a desk's log says. -/
structure Keeps (d : Desk) (clock : Nat) : Prop where
  quota (now : Nat) : ((moments d.log).filter (d.limit.covers now)).length ≤ d.limit.quota
  order : ((admissions d.log).map fun a => (a.caller, a.since)).Sublist (locks d.log)
  exact (before : List Admitted) (a : Admitted) (after : List Admitted)
    (h : admissions d.log = before ++ a :: after) :
    a.moment = d.limit.due (before.map (·.moment)) a.since
  waiting (s : Sleeper) (h : d.book.asleep = some s) :
    d.window.first? = some s.caller ∧ s.wakes = d.limit.due (moments d.log) s.since ∧
      s.since < s.wakes ∧ clock ≤ s.wakes
  abandoned (caller : Caller) (moment : Nat) (h : ⟨caller, moment, .abandoned⟩ ∈ d.log) :
    caller ∉ d.window.line ∧ ∀ a ∈ admissions d.log, a.caller ≠ caller
  entries : d.window.admitted <:+ moments d.log
  counted (before : List Entry) (caller : Caller) (moment n : Nat) (after : List Entry)
    (h : d.log = before ++ ⟨caller, moment, .counted n⟩ :: after) :
    before.getLast? = some ⟨caller, moment, .locked⟩ ∧
      n = ((moments before).filter (d.limit.covers moment)).length
  chronicle : d.log.Pairwise (·.moment ≤ ·.moment) ∧ ∀ e ∈ d.log, e.moment ≤ clock

end Desk

end LinkRelay
