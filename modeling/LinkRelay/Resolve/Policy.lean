import LinkRelay.Resolve.Plan
set_option autoImplicit false

/-!
# Calls under a policy

A call goes to its provider only while the provider's circuit is closed. Every question to the
client waits for an admission of its own. A failure that may pass is retried after a fixed delay;
when retries are used up the provider's circuit is opened. Fatal failures go to the caller, all
others become an outcome.
-/

namespace LinkRelay

structure RetryPolicy where
  retries : Nat
  delayMs : Nat
  cooldownMs : Nat
  deriving DecidableEq, Repr

namespace RetryPolicy

def ofConfig (c : Config) : RetryPolicy := ⟨c.retries, c.retryDelayMs, c.cooldown * 1000⟩

/-- Whether the attempt with this number, counted from zero, is followed by another. -/
def shouldRetry (policy : RetryPolicy) (attempt : Nat) (f : Failure) : Bool :=
  attempt < policy.retries && f.shouldRetry

def backoff (policy : RetryPolicy) (_attempt : Nat) : Nat := policy.delayMs

end RetryPolicy

abbrev Attempt := ExceptT Failure Plan

namespace Attempt

def awaitTurn (p : Provider) : Attempt Unit := do
  let waited ← ExceptT.mk (Plan.awaitTurn p.name .done)
  if waited ≠ 0 then ExceptT.mk (Plan.count (.heldBack p) (.done (.ok ())))

def ask (client : Nat) (q : Question) : Attempt q.Answer :=
  ExceptT.mk (.place client q fun delay => .pause delay (.receive client q .done))

def readClock : Attempt Time := ExceptT.mk (.readClock fun t => .done (.ok t))

/-- Asks whether the content is cached, and if so for its files. -/
def resolve (client : Nat) (p : Provider) (key : Key) : Attempt Outcome := do
  awaitTurn p
  if ← ask client (.isCached key) then
    awaitTurn p
    let files ← ask client (.files key)
    return if files.isEmpty then .notCached else .cached files
  else return .notCached

def refresh (client : Nat) (key : Key) (file : CachedFile) : Attempt Outcome := do
  awaitTurn file.provider
  match ← ask client (.link key file) with
  | some link => return .cached [{ file with link, lastChecked := ← readClock }]
  | none => return .notCached

end Attempt

namespace RetryPolicy

/-- What a call ends with after its last attempt failed. -/
def concede (policy : RetryPolicy) (p : Provider) (f : Failure) :
    Plan (Except Failure Outcome) :=
  let outcome := Outcome.ofFailure f
  let settled := Plan.count (.outcome p outcome.label) (.done (.ok outcome))
  if f.isRateLimited || f.shouldRetry then
    .openCircuit p policy.cooldownMs (.count (.breakerOpened p) settled)
  else settled

def settle (policy : RetryPolicy) (p : Provider) (again : Failure → Plan (Except Failure Outcome)) :
    Except Failure Outcome → Plan (Except Failure Outcome)
  | .ok outcome => .count (.outcome p outcome.label) (.done (.ok outcome))
  | .error f =>
    if f.isFatal then .done (.error f)
    else if f.shouldRetry then again f
    else policy.concede p f

def attempts (policy : RetryPolicy) (p : Provider) (call : Attempt Outcome) :
    Nat → Plan (Except Failure Outcome)
  | 0 => Plan.bind call.run (policy.settle p (policy.concede p))
  | left + 1 => Plan.bind call.run (policy.settle p fun _ =>
      .count (.retried p) (.pause policy.delayMs (policy.attempts p call left)))

def call (policy : RetryPolicy) (p : Provider) (attempt : Attempt Outcome) :
    Plan (Except Failure Outcome) :=
  .checkCircuit p fun isOpen =>
    if isOpen then
      .count (.breakerSkipped p)
        (.count (.outcome p Outcome.notCached.label) (.done (.ok .notCached)))
    else policy.attempts p attempt policy.retries

end RetryPolicy
end LinkRelay
