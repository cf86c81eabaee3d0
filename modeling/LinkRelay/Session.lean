import LinkRelay.Resolve.Machine
set_option autoImplicit false

/-!
# Sessions

What one caller does in the world, step by step, until it is done, fails, or is abandoned because
its deadline has passed. Whatever was done before stays done.
-/

namespace LinkRelay

inductive Halt where
  | failure (f : Failure)
  | abandoned

abbrev Session := ExceptT Halt (StateM World)

namespace Session

variable {α : Type}

def fail (f : Failure) : Session α := throw (.failure f)

def ofExcept : Except Failure α → Session α
  | .ok a => pure a
  | .error f => fail f

def attempt (s : Session α) : ExceptT Failure Session α := ExceptT.mk fun w =>
  match s w with
  | (.ok a, w) => (.ok (.ok a), w)
  | (.error (.failure f), w) => (.ok (.error f), w)
  | (.error .abandoned, w) => (.error .abandoned, w)

def talk (t : Http.OnWire α) : Session (Except Failure α) := ExceptT.mk fun w =>
  let (answer, wire) := t.run w.wire
  (.ok answer, { w with wire })

def readWall : Session Time := ExceptT.mk fun w =>
  let (now, w) := w.readWall
  (.ok now, w)

def count (s : Series) : Session Unit := modify fun w => w.count s

def onStore (f : Store → Except Failure α × Store) : Session α := ExceptT.mk fun w =>
  let (answer, store) := f w.store
  (answer.mapError .failure, { w with store })

def records (path : String) : Session (List Record) := do return (← get).store.records path

def upsert (path : String) (provider : Provider) (outcome : FileOutcome) : Session Record := do
  let now ← readWall
  onStore fun s => s.upsertAt path provider outcome now

def isStale (r : Record) : Session Bool := do
  let now ← readWall
  return (← get).store.policy.isStale r now

def deleteFile (path : String) : Session Bool := onStore fun s => s.deleteFile path

def runOne (plan : Plan (Except Failure α)) (fuel : Nat) : Session α := ExceptT.mk fun w =>
  match w.runOne plan fuel with
  | (some result, w) => (result.mapError .failure, w)
  | (none, w) => (.error .abandoned, w)

def runAll (plans : List (Plan α)) (enough : List (Finish α) → Bool) (fuel : Nat) :
    Session (List (Finish α)) := ExceptT.mk fun w =>
  match w.runAll plans enough fuel with
  | (some finishes, w) => (.ok finishes, w)
  | (none, w) => (.error .abandoned, w)

end Session
end LinkRelay
