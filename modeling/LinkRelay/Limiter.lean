import LinkRelay.Config.Basic
set_option autoImplicit false

/-!
# Rate limiter

Each name has a window: the moments of its latest admissions, and the line of callers who want to
be admitted. Only the first in line is looked at. It is admitted when fewer than the quota's
admissions lie within the window, and otherwise stays first until the oldest of them has left it.
Configuring a name starts a new window; who stands in line at the old one stays there.
-/

namespace LinkRelay

abbrev Caller := Nat

structure Window where
  limit : Limit
  /-- The moments of the admissions that still count, oldest first. -/
  admitted : List Nat
  line : List Caller
  deriving Inhabited

inductive Admission where
  | notFirst
  | neverPossible
  | admitted
  | notBefore (moment : Nat)
  deriving DecidableEq, Repr

namespace Window

def fresh (limit : Limit) : Window := ⟨limit, [], []⟩

def prune (w : Window) (now : Nat) : Window :=
  { w with admitted := w.admitted.dropWhile fun t => t + w.limit.windowMs ≤ now }

def join (w : Window) (caller : Caller) : Window := { w with line := w.line ++ [caller] }

def leave (w : Window) (caller : Caller) : Window := { w with line := w.line.erase caller }

def first? (w : Window) : Option Caller := w.line.head?

def ask (w : Window) (caller : Caller) (now : Nat) : Admission × Window :=
  if w.first? ≠ some caller then (.notFirst, w)
  else if w.limit.quota = 0 then (.neverPossible, w.leave caller)
  else
    let w := w.prune now
    if w.admitted.length < w.limit.quota then
      (.admitted, { w with admitted := w.admitted ++ [now] }.leave caller)
    else (.notBefore ((w.admitted.head?.getD now) + w.limit.windowMs), w)

def count (w : Window) (now : Nat) : Nat := (w.prune now).admitted.length

/-- The caller asks how many admissions count now. At the head of the line it learns that, and
    leaves. -/
def inspect (w : Window) (caller : Caller) (now : Nat) : Option Nat × Window :=
  if w.first? ≠ some caller then (none, w)
  else (some (w.count now), (w.prune now).leave caller)

end Window

structure Limiter where
  standard : Limit
  windows : List Window
  current : Dictionary Nat

namespace Limiter

def ofStandard (standard : Limit) : Limiter := ⟨standard, [], .empty⟩

def start (l : Limiter) (name : String) (limit : Limit) : Limiter :=
  { l with windows := l.windows ++ [.fresh limit]
           current := l.current.insert name l.windows.length }

def configure (l : Limiter) (name : String) (limit : Limit) : Limiter := l.start name limit

def window (l : Limiter) (name : String) : Nat × Limiter :=
  match l.current.get? name with
  | some n => (n, l)
  | none => (l.windows.length, l.start name l.standard)

def ofConfig (standard : Limit) (c : Config) : Limiter :=
  c.enabled.foldl (fun l p => l.configure p.kind.name p.limit) (ofStandard standard)

def modify (l : Limiter) (n : Nat) (f : Window → Window) : Limiter :=
  { l with windows := l.windows.modify n f }

def arrive (l : Limiter) (name : String) (caller : Caller) : Nat × Limiter :=
  let (n, l) := l.window name
  (n, l.modify n (·.join caller))

/-- The caller asks at a window to be admitted, and learns who is first in line now. -/
def ask (l : Limiter) (n : Nat) (caller : Caller) (now : Nat) :
    Admission × Option Caller × Limiter :=
  match l.windows[n]? with
  | some w =>
    let (answer, w) := w.ask caller now
    (answer, w.first?, l.modify n fun _ => w)
  | none => (.notFirst, none, l)

def leave (l : Limiter) (n : Nat) (caller : Caller) : Option Caller × Limiter :=
  let l := l.modify n (·.leave caller)
  ((l.windows[n]?).bind (·.first?), l)

def inspect (l : Limiter) (n : Nat) (caller : Caller) (now : Nat) :
    Option Nat × Option Caller × Limiter :=
  match l.windows[n]? with
  | some w =>
    let (count, w) := w.inspect caller now
    (count, w.first?, l.modify n fun _ => w)
  | none => (none, none, l)

def inWindow (l : Limiter) (name : String) (now : Nat) : Nat × Limiter :=
  let (n, l) := l.window name
  (((l.windows[n]?).map (·.count now)).getD 0, l.modify n (·.prune now))

end Limiter
end LinkRelay
