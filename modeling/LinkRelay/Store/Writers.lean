import LinkRelay.Store.Calls
set_option autoImplicit false

/-!
# Concurrent calls

Writes that run at once take turns: each waits in line for the store's lock, loads the records of
its path, changes them in memory, and writes the catalog. Looks do not wait in line. A change that
is being written keeps the backend to itself, so that neither a look nor a load sees what may yet be
taken back. Between any two of these steps any other call may make a step.
-/

namespace LinkRelay

inductive Call where
  | write (w : Write)
  | look (look : Look)

inductive CallStage where
  | arriving
  | waiting
  | loaded (records : List Record)
  /-- The change is in memory. `previous` is what stood on the path before, `answer` what the call
      answers once the change is written. -/
  | changing (previous : Option (List Record)) (answer : StoreAnswer)
  | ended (answer : StoreAnswer)

def CallStage.isOver : CallStage → Bool
  | .ended _ => true
  | _ => false

namespace Store

def withFiles (s : Store) (files : Catalog) : Store :=
  { s with backend := { s.backend with files } }

def settle (s : Store) (w : Write) (previous : Option (List Record)) (answer : StoreAnswer) :
    StoreAnswer × Store :=
  match s.backend.settle w.path previous with
  | (.ok (), backend) => (answer, { s with backend })
  | (.error f, backend) => (w.failure f, { s with backend })

end Store

/-- Calls by number. The line waits for the store's lock, which its first holds; a call in the
    middle of a change holds the backend as well. -/
structure Writers where
  store : Store
  calls : List (Call × CallStage)
  line : List Nat
  changing : Option Nat

namespace Writers

def start (store : Store) (calls : List Call) : Writers :=
  ⟨store, calls.map (·, .arriving), [], none⟩

def begin (store : Store) (writes : List Write) : Writers := start store (writes.map .write)

def isOver (s : Writers) : Bool := s.calls.all fun c => c.2.isOver

def move (s : Writers) (i : Nat) (stage : CallStage) : Writers :=
  { s with calls := s.calls.modify i fun c => (c.1, stage) }

def change (s : Writers) (i : Nat) (files : Catalog) (previous : Option (List Record))
    (answer : StoreAnswer) : Writers :=
  { s.move i (.changing previous answer) with store := s.store.withFiles files, changing := some i }

def finish (s : Writers) (i : Nat) (answer : StoreAnswer) (store : Store) : Writers :=
  { s.move i (.ended answer) with store, line := s.line.erase i, changing := none }

def enter (s : Writers) (i : Nat) : Write → Writers
  | .upsert path .. => s.move i (.loaded (s.store.records path))
  | .delete path =>
    match s.store.backend.files.get? path with
    | none => s.finish i (.deleted (.ok false)) s.store
    | some previous =>
      s.change i (s.store.backend.files.erase path) (some previous) (.deleted (.ok true))

def put (s : Writers) (i : Nat) (records : List Record) : Write → Writers
  | .upsert path provider outcome now =>
    let record := Store.nextRecord records provider outcome now
    let files := s.store.backend.files
    s.change i (files.insert path (Store.replace record records)) (files.get? path)
      (.upserted (.ok record))
  | .delete _ => s

/-- One step of the call with number `i`. A call that has to wait stays where it is. -/
def step (s : Writers) (i : Nat) : Writers :=
  match s.calls[i]? with
  | some (.look look, .arriving) =>
    if s.changing = none then s.move i (.ended (s.store.look look)) else s
  | some (.write _, .arriving) => { s.move i .waiting with line := s.line ++ [i] }
  | some (.write w, .waiting) =>
    if s.line.head? = some i ∧ s.changing = none then s.enter i w else s
  | some (.write w, .loaded records) => if s.changing = none then s.put i records w else s
  | some (.write w, .changing previous answer) =>
    let (answer, store) := s.store.settle w previous answer
    s.finish i answer store
  | _ => s

def run (s : Writers) (schedule : List Nat) : Writers := schedule.foldl step s

def fairSchedule (n : Nat) : List Nat := (List.replicate (4 * n) (List.range n)).flatten

def runFairly (s : Writers) : Writers := s.run (fairSchedule s.calls.length)

end Writers
end LinkRelay
