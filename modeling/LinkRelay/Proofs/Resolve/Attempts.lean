import LinkRelay.Proofs.Resolve.Calls
set_option autoImplicit false

/-!
# What an attempt hears

An attempt puts its questions one after another, each in a turn of its own. What it comes to is
told by what it hears from its client, and a call has one last attempt.
-/

namespace LinkRelay

namespace Attempt

variable {α β : Type}

theorem exec_bind (x : Attempt α) (f : α → Attempt β) (w : World) :
    (x >>= f).run.exec w = match x.run.exec w with
      | (.ok a, w') => (f a).run.exec w'
      | (.error failure, w') => (.error failure, w') := by
  refine (Plan.exec_bind x.run _ w).trans ?_
  rcases x.run.exec w with ⟨_ | a, w'⟩ <;> rfl

def heard (client : Nat) (p : Provider) (q : Question) (w : World) :
    Except Failure q.Answer × World :=
  (awaitTurn p >>= fun _ => ask client q).run.exec w

theorem exec_turn_ask (client : Nat) (p : Provider) (q : Question) (f : q.Answer → Attempt β)
    (w : World) : (awaitTurn p >>= fun _ => ask client q >>= f).run.exec w =
      match heard client p q w with
      | (.ok answer, w') => (f answer).run.exec w'
      | (.error failure, w') => (.error failure, w') := by
  rw [heard, exec_bind, exec_bind]
  rcases (awaitTurn p).run.exec w with ⟨_ | _, w'⟩
  · rfl
  · refine (exec_bind (ask client q) f w').trans ?_
    dsimp only
    rcases (ask client q).run.exec w' with ⟨_ | _, w''⟩ <;> rfl

theorem resolve_exec (client : Nat) (p : Provider) (key : Key) (w : World) :
    (resolve client p key).run.exec w = match heard client p (.isCached key) w with
      | (.ok true, w') =>
        match heard client p (.files key) w' with
        | (.ok files, w'') => (.ok (if files.isEmpty then .notCached else .cached files), w'')
        | (.error failure, w'') => (.error failure, w'')
      | (.ok false, w') => (.ok .notCached, w')
      | (.error failure, w') => (.error failure, w') := by
  refine (exec_turn_ask client p (.isCached key) _ w).trans ?_
  rcases heard client p (.isCached key) w with ⟨_ | _ | _, w'⟩
  · rfl
  · rfl
  · refine (exec_turn_ask client p (.files key) (fun files => Pure.pure
      (if files.isEmpty then Outcome.notCached else .cached files)) w').trans ?_
    dsimp only
    rcases heard client p (.files key) w' with ⟨_ | _, w''⟩ <;> rfl

theorem refresh_exec (client : Nat) (key : Key) (file : CachedFile) (w : World) :
    (refresh client key file).run.exec w =
      match heard client file.provider (.link key file) w with
      | (.ok (some link), w') =>
        (.ok (.cached [{ file with link, lastChecked := w'.wall }]), w'.readWall.2)
      | (.ok none, w') => (.ok .notCached, w')
      | (.error failure, w') => (.error failure, w') := by
  refine (exec_turn_ask client file.provider (.link key file) _ w).trans ?_
  rcases heard client file.provider (.link key file) w with ⟨_ | _ | _, w'⟩ <;> rfl

end Attempt

namespace RetryPolicy

def begun (policy : RetryPolicy) (p : Provider) (attempt : Attempt Outcome) (w : World) :
    Nat → World
  | 0 => w
  | k + 1 => policy.again p (policy.trial p attempt w k).2

theorem trial_eq_exec (policy : RetryPolicy) (p : Provider) (attempt : Attempt Outcome) (w : World)
    (k : Nat) : policy.trial p attempt w k = attempt.run.exec (policy.begun p attempt w k) := by
  cases k <;> rfl

theorem Last.unique {retries last last' : Nat} {result : Nat → CallResult}
    (h : Last retries result last) (h' : Last retries result last') : last = last' := by
  have hle {n n' : Nat} (h : Last retries result n) (h' : Last retries result n') : n' ≤ n := by
    by_contra hlt
    have hstops := h.stops (lt_of_lt_of_le (not_le.mp hlt) h'.within)
    rw [h'.before (not_le.mp hlt)] at hstops
    cases hstops
  exact le_antisymm (hle h' h) (hle h h')

end RetryPolicy
end LinkRelay
