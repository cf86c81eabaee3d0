import LinkRelay.Resolve.Policy
import LinkRelay.Session
set_option autoImplicit false

/-!
# Resolving content

Every client that serves a key's kind is asked at once, each by a call under the policy. One
provider alone can be asked, and a file's provider for a fresh link.
-/

namespace LinkRelay

abbrev CallResult := Except Failure Outcome

def firstFailure? (finishes : List (Finish CallResult)) : Option Failure :=
  finishes.findSome? fun f => match f.result with
    | .error failure => some failure
    | .ok _ => none

def resolutionsOf (clients : List (Nat × Provider)) (finishes : List (Finish CallResult)) :
    List Resolution :=
  clients.zipIdx.filterMap fun (client, task) =>
    (finishes.find? fun f => f.task = task).bind fun f => match f.result with
      | .ok outcome => some ⟨client.2, outcome⟩
      | .error _ => none

def providersFor (key : Key) : Session (List Provider) := do
  return ((← get).clientsFor key.kind).map (·.2)

def clientOf? (key : Key) (p : Provider) : Session (Option Nat) := do
  return (((← get).clientsFor key.kind).find? fun client => client.2 = p).map (·.1)

namespace RetryPolicy

/-- More turns than the tasks of a resolution can take. -/
def turnsFor (policy : RetryPolicy) (tasks : Nat) : Nat := tasks * (policy.retries + 1) * 20 + 16

def resolveCall (policy : RetryPolicy) (key : Key) (client : Nat × Provider) : Plan CallResult :=
  policy.call client.2 (Attempt.resolve client.1 client.2 key)

def refreshCall (policy : RetryPolicy) (key : Key) (file : CachedFile) (client : Nat) :
    Plan CallResult :=
  policy.call file.provider (Attempt.refresh client key file)

/-- One outcome for each client that serves the key, in order. -/
def resolve (policy : RetryPolicy) (key : Key) : Session (List Resolution) := do
  let clients := (← get).clientsFor key.kind
  let finishes ← Session.runAll (clients.map (policy.resolveCall key))
    (fun finishes => (firstFailure? finishes).isSome) (policy.turnsFor clients.length)
  match firstFailure? finishes with
  | some f => Session.fail f
  | none => return resolutionsOf clients finishes

/-- What one provider says; without a client that serves the key nothing is cached there. -/
def resolveProvider (policy : RetryPolicy) (key : Key) (p : Provider) : Session Outcome := do
  match ← clientOf? key p with
  | none => return .notCached
  | some client => Session.runOne (policy.resolveCall key (client, p)) (policy.turnsFor 1)

def cachedFiles (policy : RetryPolicy) (key : Key) : Session (List CachedFile) := do
  return Resolution.files (← policy.resolve key)

def refreshFile (policy : RetryPolicy) (key : Key) (file : CachedFile) : Session Outcome := do
  match ← clientOf? key file.provider with
  | none => return .notCached
  | some client => Session.runOne (policy.refreshCall key file client) (policy.turnsFor 1)

end RetryPolicy
end LinkRelay
