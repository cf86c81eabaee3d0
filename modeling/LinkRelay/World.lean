import LinkRelay.Breaker
import LinkRelay.Client.Basic
import LinkRelay.Limiter
import LinkRelay.Metrics
import LinkRelay.Store.Basic
set_option autoImplicit false

/-!
# The world of a run

Everything that a run reads and changes: two clocks, the shared state of the program, its clients,
the wire they talk over, and the store.
-/

namespace LinkRelay

structure World where
  /-- Milliseconds of a clock that only moves on. -/
  clock : Nat
  /-- What the calendar's next readings show, in any order. -/
  calendar : Nat → Time
  breaker : Breaker
  limiter : Limiter
  metrics : Metrics
  clients : List Client
  wire : Http.Wire
  store : Store
  /-- The moment at which the caller of the present operation stops waiting for it. -/
  deadline : Option Nat

namespace World

def start (clients : List Client) (limiter : Limiter) (store : Store) (wire : Http.Wire)
    (calendar : Nat → Time) : World where
  clock := 0
  calendar := calendar
  breaker := .closed
  limiter := limiter
  metrics := .empty
  clients := clients
  wire := wire
  store := store
  deadline := none

abbrev wall (w : World) : Time := w.calendar 0

/-- The world after some readings of the calendar. -/
def later (w : World) (readings : Nat) : World :=
  { w with calendar := fun n => w.calendar (n + readings) }

def readWall (w : World) : Time × World := (w.wall, w.later 1)

def count (w : World) (s : Series) : World := { w with metrics := w.metrics.add s }

def clientsFor (w : World) (kind : Kind) : List (Nat × Provider) :=
  (w.clients.zipIdx.filter fun e => e.1.supports kind).map fun e => (e.2, e.1.provider)

end World
end LinkRelay
