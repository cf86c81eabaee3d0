import LinkRelay.Proofs.Resolve.Solo
import LinkRelay.Resolve.Resolver
set_option autoImplicit false

/-!
# What a call under a policy does

A call whose circuit is open is skipped. Any other makes attempts, each on the world that the one
before it left, one delay later. `RetryPolicy.Called` says which attempt is the last, and all that
a call changes beside what its attempts change.
-/

namespace LinkRelay

def World.checked (w : World) (p : Provider) : World :=
  { w with breaker := (w.breaker.check p.name w.clock).2 }

def World.clientOf? (w : World) (key : Key) (p : Provider) : Option Nat :=
  ((w.clientsFor key.kind).find? fun client => client.2 = p).map (·.1)

namespace Metrics

theorem lookup_cons (s s' : Series) (n : Nat) (rest : List (Series × Nat)) :
    ((s', n) :: rest).lookup s = if s = s' then some n else rest.lookup s := by
  by_cases h : s = s'
  · rw [if_pos h, h, List.lookup_cons_self]
  · rw [if_neg h, List.lookup_cons, beq_false_of_ne h]

theorem lookup_map_add (s s' : Series) (counts : List (Series × Nat)) :
    (counts.map fun e => if e.1 = s then (e.1, e.2 + 1) else e).lookup s' =
      (counts.lookup s').map fun n => n + if s' = s then 1 else 0 := by
  induction counts with
  | nil => rfl
  | cons e rest ih =>
    obtain ⟨known, n⟩ := e
    rw [List.map_cons, lookup_cons]
    by_cases hs' : s' = known
    · by_cases hs : known = s <;> simp [hs', hs]
    · by_cases hs : known = s
      · rw [if_pos hs, lookup_cons, if_neg hs', if_neg hs', ih]
      · rw [if_neg hs, lookup_cons, if_neg hs', if_neg hs', ih]

theorem lookup_touch (m : Metrics) (s s' : Series) :
    (m.touch s).counts.lookup s' =
      if s' = s then some (m.count s) else m.counts.lookup s' := by
  unfold touch count
  cases hs : m.counts.lookup s with
  | some n =>
    by_cases hs' : s' = s
    · rw [if_pos hs', hs', Option.isSome_some, if_pos rfl, hs, Option.getD_some]
    · rw [if_neg hs', Option.isSome_some, if_pos rfl]
  | none =>
    have hnew : ([(s, 0)] : List (Series × Nat)).lookup s' = if s' = s then some 0 else none := by
      rw [lookup_cons, List.lookup_nil]
    rw [Option.isSome_none, if_neg Bool.false_ne_true, List.lookup_append, hnew]
    by_cases hs' : s' = s
    · rw [if_pos hs', if_pos hs', hs', hs, Option.none_or, Option.getD_none]
    · rw [if_neg hs', if_neg hs', Option.or_none]

theorem count_add (m : Metrics) (s s' : Series) :
    (m.add s).count s' = m.count s' + if s' = s then 1 else 0 := by
  rw [count, add, lookup_map_add, lookup_touch]
  by_cases h : s' = s
  · rw [if_pos h, if_pos h, h]
    rfl
  · rw [if_neg h, if_neg h, Nat.add_zero]
    simp only [Nat.add_zero, Option.map_id']
    rfl

end Metrics

namespace Plan

variable {α β : Type} {p : Provider}

/-- Leaves all circuits alone, and counts nothing but calls to a provider that are held back. -/
def Calm (p : Provider) : Plan α → Prop
  | .done _ => True
  | .checkCircuit .. | .openCircuit .. => False
  | .count s k => s = .heldBack p ∧ k.Calm p
  | .awaitTurn _ k => ∀ r, (k r).Calm p
  | .place _ _ k => ∀ d, (k d).Calm p
  | .receive _ _ k => ∀ r, (k r).Calm p
  | .pause _ k => k.Calm p
  | .readClock k => ∀ t, (k t).Calm p

theorem Calm.bind {plan : Plan α} {f : α → Plan β} (h : plan.Calm p) (hf : ∀ a, (f a).Calm p) :
    (plan.bind f).Calm p := by
  induction plan with
  | done a => exact hf a
  | checkCircuit _ k ih => exact h.elim
  | openCircuit _ ms k ih => exact h.elim
  | count s k ih => exact ⟨h.1, ih h.2⟩
  | awaitTurn name k ih => exact fun r => ih r (h r)
  | place c q k ih => exact fun d => ih d (h d)
  | receive c q k ih => exact fun r => ih r (h r)
  | pause ms k ih => exact ih h
  | readClock k ih => exact fun t => ih t (h t)

structure Kept (p : Provider) (w w' : World) : Prop where
  breaker : w'.breaker = w.breaker
  counts {s : Series} (h : s ≠ .heldBack p) : w'.metrics.count s = w.metrics.count s

theorem Kept.trans {w w' w'' : World} (h : Kept p w w') (h' : Kept p w' w'') : Kept p w w'' :=
  ⟨h'.breaker.trans h.breaker, fun hs => (h'.counts hs).trans (h.counts hs)⟩

theorem kept_grant (w : World) (name : String) : Kept p w (w.grant name).2 := by
  obtain ⟨clock, limiter, hw⟩ := w.grant_eq name
  rw [hw]
  exact ⟨rfl, fun _ => rfl⟩

theorem kept_place (w : World) (client : Nat) (q : Question) :
    Kept p w (w.place client q).2 := by
  obtain ⟨clients, hw⟩ := w.place_eq client q
  rw [hw]
  exact ⟨rfl, fun _ => rfl⟩

theorem kept_receive (w : World) (client : Nat) (q : Question) :
    Kept p w (w.receive client q).2 := by
  obtain ⟨n, clients, wire, hw⟩ := w.receive_eq client q
  rw [hw]
  exact ⟨rfl, fun _ => rfl⟩

theorem Calm.kept {plan : Plan α} (h : plan.Calm p) (w : World) : Kept p w (plan.exec w).2 := by
  induction plan generalizing w with
  | done a => exact ⟨rfl, fun _ => rfl⟩
  | checkCircuit _ k ih => exact h.elim
  | openCircuit _ ms k ih => exact h.elim
  | count s k ih =>
    obtain ⟨hbreaker, hcounts⟩ := ih h.2 (w.count s)
    refine ⟨hbreaker, fun {s'} hs' => (hcounts hs').trans ?_⟩
    rw [World.count, Metrics.count_add, if_neg (h.1 ▸ hs'), Nat.add_zero]
  | awaitTurn name k ih => exact (kept_grant w name).trans (ih _ (h _) _)
  | place c q k ih => exact (kept_place w c q).trans (ih _ (h _) _)
  | receive c q k ih => exact (kept_receive w c q).trans (ih _ (h _) _)
  | pause ms k ih => exact ⟨(ih h _).breaker, (ih h _).counts⟩
  | readClock k ih =>
    have hrest := ih w.wall (h _) w.readWall.2
    exact ⟨hrest.breaker, hrest.counts⟩

end Plan

namespace Attempt

variable {α β : Type} {n m : Nat} {p : Provider}

theorem takes_bind {x : Attempt α} {f : α → Attempt β} (hx : x.run.Takes n)
    (hf : ∀ a, (f a).run.Takes m) : (x >>= f).run.Takes (n + m) := by
  refine Plan.Takes.bind hx fun r => ?_
  cases r with
  | ok a => exact hf a
  | error f => trivial

theorem calm_bind {x : Attempt α} {f : α → Attempt β} (hx : x.run.Calm p)
    (hf : ∀ a, (f a).run.Calm p) : (x >>= f).run.Calm p := by
  refine Plan.Calm.bind hx fun r => ?_
  cases r with
  | ok a => exact hf a
  | error f => trivial

theorem takes_awaitTurn (p : Provider) : (awaitTurn p).run.Takes 4 := by
  refine takes_bind (n := 3) (m := 1) ⟨le_refl _, fun _ => trivial⟩ fun waited => ?_
  split
  · exact ⟨le_refl _, trivial⟩
  · trivial

theorem calm_awaitTurn (p : Provider) : (awaitTurn p).run.Calm p := by
  refine calm_bind (fun _ => trivial) fun waited => ?_
  split
  · exact ⟨rfl, trivial⟩
  · trivial

theorem takes_ask (client : Nat) (q : Question) : (ask client q).run.Takes 4 :=
  ⟨by decide, fun _ => ⟨by decide, by decide, fun _ => trivial⟩⟩

theorem calm_ask (client : Nat) (q : Question) : (ask client q).run.Calm p :=
  fun _ _ => trivial

theorem takes_resolve (client : Nat) (p : Provider) (key : Key) :
    (resolve client p key).run.Takes 16 := by
  refine takes_bind (m := 12) (takes_awaitTurn p) fun _ => ?_
  refine takes_bind (m := 8) (takes_ask client (.isCached key)) fun isCached => ?_
  cases isCached with
  | false => trivial
  | true =>
    refine takes_bind (m := 4) (takes_awaitTurn p) fun _ => ?_
    exact takes_bind (m := 0) (takes_ask client (.files key)) fun _ => trivial

theorem calm_resolve (client : Nat) (p : Provider) (key : Key) :
    (resolve client p key).run.Calm p := by
  refine calm_bind (calm_awaitTurn p) fun _ => ?_
  refine calm_bind (calm_ask client (.isCached key)) fun isCached => ?_
  cases isCached with
  | false => trivial
  | true =>
    refine calm_bind (calm_awaitTurn p) fun _ => ?_
    exact calm_bind (calm_ask client (.files key)) fun _ => trivial

theorem takes_refresh (client : Nat) (key : Key) (file : CachedFile) :
    (refresh client key file).run.Takes 16 := by
  refine takes_bind (m := 12) (takes_awaitTurn file.provider) fun _ => ?_
  refine takes_bind (m := 8) (takes_ask client (.link key file)) fun link => ?_
  cases link with
  | none => trivial
  | some link => exact takes_bind (n := 1) (m := 7) ⟨le_refl _, fun _ => trivial⟩ fun _ => trivial

theorem calm_refresh (client : Nat) (key : Key) (file : CachedFile) :
    (refresh client key file).run.Calm file.provider := by
  refine calm_bind (calm_awaitTurn file.provider) fun _ => ?_
  refine calm_bind (calm_ask client (.link key file)) fun link => ?_
  cases link with
  | none => trivial
  | some link => exact calm_bind (fun _ => trivial) fun _ => trivial

end Attempt

namespace RetryPolicy

variable {policy : RetryPolicy} {p : Provider} {attempt : Attempt Outcome}

def retryable : CallResult → Bool
  | .ok _ => false
  | .error f => f.shouldRetry

def answer : CallResult → CallResult
  | .ok outcome => .ok outcome
  | .error f => if f.isFatal then .error f else .ok (.ofFailure f)

def opensCircuit : CallResult → Bool
  | .ok _ => false
  | .error f => f.isRateLimited || f.shouldRetry

def again (policy : RetryPolicy) (p : Provider) (w : World) : World :=
  (w.count (.retried p)).pass policy.delayMs

/-- The attempts of a call that is retried again and again: each one's result, and the world
    after it. -/
def trial (policy : RetryPolicy) (p : Provider) (attempt : Attempt Outcome) (w : World) :
    Nat → CallResult × World
  | 0 => attempt.run.exec w
  | k + 1 => attempt.run.exec (policy.again p (policy.trial p attempt w k).2)

/-- The number of the attempt after which a call stops: the first whose result is not retryable,
    or the last that the policy allows. -/
structure Last (retries : Nat) (result : Nat → CallResult) (last : Nat) : Prop where
  within : last ≤ retries
  before {k : Nat} (h : k < last) : retryable (result k) = true
  stops (h : last < retries) : retryable (result last) = false

theorem trial_succ (policy : RetryPolicy) (p : Provider) (attempt : Attempt Outcome) (w : World)
    (k : Nat) : policy.trial p attempt w (k + 1) =
      policy.trial p attempt (policy.again p (attempt.run.exec w).2) k := by
  induction k with
  | zero => rfl
  | succ k ih => rw [trial, ih, trial]

theorem Last.succ {retries last : Nat} {result : Nat → CallResult}
    (hfirst : retryable (result 0) = true) (h : Last retries (fun k => result (k + 1)) last) :
    Last (retries + 1) result (last + 1) where
  within := Nat.succ_le_succ h.within
  before := by
    intro k hk
    cases k with
    | zero => exact hfirst
    | succ k => exact h.before (Nat.lt_of_succ_lt_succ hk)
  stops hlast := h.stops (Nat.lt_of_succ_lt_succ hlast)

def conclude (policy : RetryPolicy) (p : Provider) (r : CallResult × World) : CallResult × World :=
  (policy.settle p (policy.concede p) r.1).exec r.2

theorem settle_of_not_retryable {r : CallResult} (h : retryable r = false)
    (go go' : Failure → Plan CallResult) : policy.settle p go r = policy.settle p go' r := by
  cases r with
  | ok outcome => rfl
  | error f =>
    have hretry : ¬ f.shouldRetry = true := Bool.not_eq_true _ ▸ h
    rw [settle, settle, if_neg hretry, if_neg hretry]

theorem settle_of_retryable (policy : RetryPolicy) (p : Provider) {r : CallResult}
    (h : retryable r = true) (go : Failure → Plan CallResult) :
    ∃ f, r = .error f ∧ policy.settle p go r = go f := by
  cases r with
  | ok outcome => cases h
  | error f =>
    have hfatal : ¬ f.isFatal = true := by rw [f.isFatal_of_shouldRetry h]; decide
    exact ⟨f, rfl, (if_neg hfatal).trans (if_pos h)⟩

theorem attempts_exec (policy : RetryPolicy) (p : Provider) (attempt : Attempt Outcome) (left : Nat)
    (w : World) :
    ∃ last, Last left (fun k => (policy.trial p attempt w k).1) last ∧
      (policy.attempts p attempt left).exec w =
        policy.conclude p (policy.trial p attempt w last) := by
  induction left generalizing w with
  | zero =>
    refine ⟨0, ⟨le_refl _, nofun, nofun⟩, ?_⟩
    rw [attempts, Plan.exec_bind]
    rfl
  | succ left ih =>
    rw [attempts, Plan.exec_bind]
    cases hfirst : retryable (attempt.run.exec w).1 with
    | false =>
      refine ⟨0, ⟨Nat.zero_le _, nofun, fun _ => hfirst⟩, ?_⟩
      rw [settle_of_not_retryable hfirst _ (policy.concede p)]
      rfl
    | true =>
      obtain ⟨last, hlast, hrest⟩ := ih (policy.again p (attempt.run.exec w).2)
      simp only [← trial_succ] at hlast hrest
      obtain ⟨f, -, hagain⟩ := policy.settle_of_retryable p hfirst fun _ =>
        .count (.retried p) (.pause policy.delayMs (policy.attempts p attempt left))
      rw [hagain]
      exact ⟨last + 1, Last.succ hfirst hlast, hrest⟩

def settled (p : Provider) (result : CallResult) (s : Series) : Nat :=
  (if opensCircuit result ∧ s = .breakerOpened p then 1 else 0) +
    match answer result with
    | .ok outcome => if s = .outcome p outcome.label then 1 else 0
    | .error _ => 0

/-- How a call ends after its last attempt, from the attempt's result and the world after it. -/
structure Concluded (policy : RetryPolicy) (p : Provider) (t r : CallResult × World) : Prop where
  answered : r.1 = answer t.1
  fatal {f : Failure} (h : t.1 = .error f) (hfatal : f.isFatal = true) : r = (.error f, t.2)
  rest : ∃ breaker metrics, r.2 = { t.2 with breaker, metrics }
  circuit : r.2.breaker =
    if opensCircuit t.1 then t.2.breaker.trip p.name policy.cooldownMs t.2.clock else t.2.breaker
  counts (s : Series) : r.2.metrics.count s = t.2.metrics.count s + settled p t.1 s

theorem conclude_fatal {f : Failure} (h : f.isFatal = true) (w : World) :
    policy.conclude p (.error f, w) = (.error f, w) := by
  rw [conclude, settle, if_pos h]
  rfl

theorem conclude_error {f : Failure} (h : f.isFatal = false) (w : World) :
    policy.conclude p (.error f, w) = (policy.concede p f).exec w := by
  rw [conclude, settle, if_neg (Bool.not_eq_true _ ▸ h), ite_self]

theorem concede_exec (policy : RetryPolicy) (p : Provider) (f : Failure) (w : World) :
    (policy.concede p f).exec w = (.ok (.ofFailure f),
      (if opensCircuit (.error f) then
        { w with breaker := w.breaker.trip p.name policy.cooldownMs w.clock }.count
          (.breakerOpened p)
      else w).count (.outcome p (Outcome.ofFailure f).label)) := by
  unfold concede opensCircuit
  dsimp only
  split <;> rfl

theorem opensCircuit_of_isFatal {f : Failure} (h : f.isFatal = true) :
    opensCircuit (.error f) = false := by
  cases f with
  | store fault | config fault | internal fault => rfl
  | _ => cases h

theorem answer_of_fatal {f : Failure} (h : f.isFatal = true) : answer (.error f) = .error f :=
  if_pos h

theorem isFatal_of_answer {r : CallResult} {f : Failure} (h : answer r = .error f) :
    f.isFatal = true := by
  cases r with
  | ok outcome => cases h
  | error g =>
    by_cases hg : g.isFatal = true
    · rw [answer_of_fatal hg] at h
      cases h
      exact hg
    · rw [answer, if_neg hg] at h
      cases h

theorem answer_of_not_fatal {f : Failure} (h : f.isFatal = false) :
    answer (.error f) = .ok (.ofFailure f) :=
  if_neg (Bool.not_eq_true _ ▸ h)

theorem settled_ok (outcome : Outcome) (s : Series) :
    settled p (.ok outcome) s = if s = .outcome p outcome.label then 1 else 0 := by
  simp [settled, opensCircuit, answer]

theorem settled_fatal {f : Failure} (h : f.isFatal = true) (s : Series) :
    settled p (.error f) s = 0 := by
  simp [settled, opensCircuit_of_isFatal h, answer_of_fatal h]

theorem settled_error {f : Failure} (h : f.isFatal = false) (s : Series) :
    settled p (.error f) s =
      (if opensCircuit (.error f) ∧ s = .breakerOpened p then 1 else 0) +
        if s = .outcome p (Outcome.ofFailure f).label then 1 else 0 := by
  simp [settled, answer_of_not_fatal h]

theorem concluded (policy : RetryPolicy) (p : Provider) (t : CallResult × World) :
    policy.Concluded p t (policy.conclude p t) := by
  obtain ⟨result, w⟩ := t
  cases result with
  | ok outcome =>
    refine ⟨rfl, nofun, ⟨w.breaker, _, rfl⟩, rfl, fun s => ?_⟩
    rw [settled_ok]
    exact w.metrics.count_add _ s
  | error f =>
    cases hfatal : f.isFatal with
    | true =>
      rw [conclude_fatal hfatal]
      refine ⟨(answer_of_fatal hfatal).symm, ?_, ⟨w.breaker, w.metrics, rfl⟩, ?_, fun s => ?_⟩
      · rintro f' ⟨rfl⟩ -
        rfl
      · rw [opensCircuit_of_isFatal hfatal]
        rfl
      · rw [settled_fatal hfatal]
        rfl
    | false =>
      rw [conclude_error hfatal, concede_exec]
      refine ⟨(answer_of_not_fatal hfatal).symm, ?_, ?_, ?_, fun s => ?_⟩
      · rintro f' ⟨rfl⟩ htrue
        rw [hfatal] at htrue
        cases htrue
      · split <;> exact ⟨_, _, rfl⟩
      · split <;> rfl
      · rw [settled_error hfatal]
        change (World.metrics (World.count _ _)).count s = _
        rw [World.count, Metrics.count_add, ← Nat.add_assoc]
        split
        · rename_i hopens
          rw [World.count, Metrics.count_add]
          simp [hopens]
        · rename_i hopens
          simp [hopens]

theorem trial_breaker (policy : RetryPolicy) (h : attempt.run.Calm p) (w : World) (k : Nat) :
    (policy.trial p attempt w k).2.breaker = w.breaker := by
  induction k with
  | zero => exact (h.kept w).breaker
  | succ k ih => exact (h.kept _).breaker.trans ih

theorem trial_counts (h : attempt.run.Calm p) (w : World) (k : Nat) {s : Series}
    (hs : s ≠ .heldBack p) :
    (policy.trial p attempt w k).2.metrics.count s =
      w.metrics.count s + if s = .retried p then k else 0 := by
  induction k with
  | zero => rw [ite_self]; exact (h.kept w).counts hs
  | succ k ih =>
    refine ((h.kept _).counts hs).trans ?_
    rw [again, World.pass, World.count, Metrics.count_add, ih]
    split <;> rfl

theorem takes_concede (policy : RetryPolicy) (p : Provider) (f : Failure) :
    (policy.concede p f).Takes 3 := by
  unfold concede
  dsimp only
  split
  · exact ⟨by decide, by decide, by decide, trivial⟩
  · exact ⟨by decide, trivial⟩

theorem takes_settle {go : Failure → Plan CallResult} {n : Nat} (hn : 3 ≤ n)
    (h : ∀ f, (go f).Takes n) (r : CallResult) : (policy.settle p go r).Takes n := by
  cases r with
  | ok outcome => exact ⟨le_trans (by decide) hn, trivial⟩
  | error f =>
    rw [settle]
    split
    · trivial
    · split
      · exact h f
      · exact (policy.takes_concede p f).mono hn

theorem takes_attempts {n : Nat} (h : attempt.run.Takes n) (left : Nat) :
    (policy.attempts p attempt left).Takes ((n + 3) * (left + 1)) := by
  induction left with
  | zero =>
    rw [Nat.zero_add, Nat.mul_one]
    exact h.bind (takes_settle (le_refl _) (policy.takes_concede p))
  | succ left ih =>
    have hsteps : (n + 3) * (left + 1 + 1) = n + ((n + 3) * (left + 1) + 3) := by
      rw [Nat.mul_succ]
      omega
    rw [hsteps]
    refine h.bind (takes_settle (Nat.le_add_left _ _) fun _ => ?_)
    exact ⟨Nat.le_add_left 1 _, Nat.le_add_left 2 _, ih⟩

theorem takes_call {n : Nat} (h : attempt.run.Takes n) :
    (policy.call p attempt).Takes ((n + 3) * (policy.retries + 1) + 1) := by
  have hthree : 3 ≤ (n + 3) * (policy.retries + 1) :=
    Nat.le_trans (Nat.le_add_left 3 n) (Nat.le_mul_of_pos_right _ (Nat.succ_pos _))
  refine ⟨Nat.le_add_left 1 _, fun isOpen => ?_⟩
  cases isOpen with
  | true => exact ⟨by omega, by omega, trivial⟩
  | false => exact takes_attempts h policy.retries

/-- What a call comes to that starts with its circuit closed, and whose last attempt has this
    number. The attempts start in the world after the check, which forgets the circuit. -/
structure Called (policy : RetryPolicy) (p : Provider) (attempt : Attempt Outcome) (w : World)
    (last : Nat) (r : CallResult × World) : Prop where
  isLast : Last policy.retries (fun k => (policy.trial p attempt (w.checked p) k).1) last
  answered : r.1 = answer (policy.trial p attempt (w.checked p) last).1
  fatal {f : Failure} (h : (policy.trial p attempt (w.checked p) last).1 = .error f)
    (hfatal : f.isFatal = true) : r = policy.trial p attempt (w.checked p) last
  rest : ∃ breaker metrics,
    r.2 = { (policy.trial p attempt (w.checked p) last).2 with breaker, metrics }
  circuit : r.2.breaker.openUntil.get? p.name =
    if opensCircuit (policy.trial p attempt (w.checked p) last).1 then
      some ((policy.trial p attempt (w.checked p) last).2.clock + policy.cooldownMs)
    else none
  circuits {name : String} (h : name ≠ p.name) :
    r.2.breaker.openUntil.get? name = w.breaker.openUntil.get? name
  counts {s : Series} (h : s ≠ .heldBack p) :
    r.2.metrics.count s = w.metrics.count s + (if s = .retried p then last else 0) +
      settled p (policy.trial p attempt (w.checked p) last).1 s

theorem call_of_open {w : World} (h : w.breaker.isOpenAt p.name w.clock = true) :
    (policy.call p attempt).exec w =
      (.ok .notCached, (w.count (.breakerSkipped p)).count (.outcome p "not_cached")) := by
  have hcheck : w.breaker.check p.name w.clock = (true, w.breaker) := if_pos h
  rw [call, Plan.exec, hcheck]
  rfl

theorem call_of_closed (policy : RetryPolicy) (hcalm : attempt.run.Calm p) {w : World}
    (h : w.breaker.isOpenAt p.name w.clock = false) :
    ∃ last, policy.Called p attempt w last ((policy.call p attempt).exec w) := by
  have hcheck : w.breaker.check p.name w.clock = (false, ⟨w.breaker.openUntil.erase p.name⟩) :=
    if_neg (Bool.not_eq_true _ ▸ h)
  have hget (name : String) : (w.checked p).breaker.openUntil.get? name =
      if name = p.name then none else w.breaker.openUntil.get? name := by
    rw [World.checked, hcheck]
    exact Dictionary.get?_erase ..
  obtain ⟨last, hlast, hexec⟩ := policy.attempts_exec p attempt policy.retries (w.checked p)
  have hcall : (policy.call p attempt).exec w =
      policy.conclude p (policy.trial p attempt (w.checked p) last) := by
    rw [← hexec, World.checked, call, Plan.exec, hcheck]
    rfl
  have hend := policy.concluded p (policy.trial p attempt (w.checked p) last)
  have hbreaker := policy.trial_breaker hcalm (w.checked p) last
  rw [← hcall] at hend
  refine ⟨last, hlast, hend.answered, ?_, hend.rest, ?_, ?_, ?_⟩
  · intro f hf hfatal
    rw [hend.fatal hf hfatal, ← hf]
  · rw [hend.circuit, hbreaker]
    split
    · exact (Dictionary.get?_insert ..).trans (if_pos rfl)
    · exact (hget p.name).trans (if_pos rfl)
  · intro name hname
    have hkept := (hget name).trans (if_neg hname)
    rw [hend.circuit, hbreaker]
    split
    · exact ((Dictionary.get?_insert ..).trans (if_neg hname)).trans hkept
    · exact hkept
  · intro s hs
    rw [hend.counts, trial_counts hcalm _ _ hs]
    rfl

end RetryPolicy

/-- A call to a key's provider, or to a file's provider for a fresh link. -/
inductive PolicyCall where
  | resolve (key : Key) (p : Provider)
  | refresh (key : Key) (file : CachedFile)

namespace PolicyCall

def key : PolicyCall → Key
  | .resolve key _ => key
  | .refresh key _ => key

def provider : PolicyCall → Provider
  | .resolve _ p => p
  | .refresh _ file => file.provider

def attempt (client : Nat) : PolicyCall → Attempt Outcome
  | .resolve key p => Attempt.resolve client p key
  | .refresh key file => Attempt.refresh client key file

def session (policy : RetryPolicy) : PolicyCall → Session Outcome
  | .resolve key p => policy.resolveProvider key p
  | .refresh key file => policy.refreshFile key file

theorem takes_attempt (client : Nat) (c : PolicyCall) : (c.attempt client).run.Takes 16 := by
  cases c with
  | resolve key p => exact Attempt.takes_resolve client p key
  | refresh key file => exact Attempt.takes_refresh client key file

theorem calm_attempt (client : Nat) (c : PolicyCall) : (c.attempt client).run.Calm c.provider := by
  cases c with
  | resolve key p => exact Attempt.calm_resolve client p key
  | refresh key file => exact Attempt.calm_refresh client key file

theorem session_of_some (policy : RetryPolicy) (c : PolicyCall) {w : World} {client : Nat}
    (h : w.clientOf? c.key c.provider = some client) :
    c.session policy w =
      Session.runOne (policy.call c.provider (c.attempt client)) (policy.turnsFor 1) w := by
  cases c with
  | resolve key p =>
    have hfound : (clientOf? key p : Session _) w = (.ok (some client), w) :=
      congrArg (fun found => (Except.ok found, w)) h
    exact Session.bind_of_ok hfound _
  | refresh key file =>
    have hfound : (clientOf? key file.provider : Session _) w = (.ok (some client), w) :=
      congrArg (fun found => (Except.ok found, w)) h
    exact Session.bind_of_ok hfound _

theorem session_eq (policy : RetryPolicy) (c : PolicyCall) {w : World} (h : w.AtRest)
    {client : Nat} (hclient : w.clientOf? c.key c.provider = some client) :
    c.session policy w =
      (((policy.call c.provider (c.attempt client)).exec w).1.mapError .failure,
        ((policy.call c.provider (c.attempt client)).exec w).2) := by
  have hfuel : 19 * (policy.retries + 1) + 1 < policy.turnsFor 1 := by
    unfold RetryPolicy.turnsFor
    omega
  rw [c.session_of_some policy hclient]
  exact Session.runOne_of_atRest h (RetryPolicy.takes_call (c.takes_attempt client)) hfuel

theorem session_of_none (policy : RetryPolicy) (c : PolicyCall) {w : World}
    (h : w.clientOf? c.key c.provider = none) : c.session policy w = (.ok .notCached, w) := by
  cases c with
  | resolve key p =>
    have hfound : (clientOf? key p : Session _) w = (.ok none, w) :=
      congrArg (fun found => (Except.ok found, w)) h
    exact Session.bind_of_ok hfound _
  | refresh key file =>
    have hfound : (clientOf? key file.provider : Session _) w = (.ok none, w) :=
      congrArg (fun found => (Except.ok found, w)) h
    exact Session.bind_of_ok hfound _

/-- A call between two operations always comes to an answer, and fails only fatally. -/
theorem answered (policy : RetryPolicy) (c : PolicyCall) {w : World} (h : w.AtRest) :
    ∃ r : CallResult × World, c.session policy w = (r.1.mapError .failure, r.2) ∧
      r.2.AtRest ∧ w.Onward r.2 ∧ ∀ f, r.1 = .error f → f.isFatal = true := by
  cases hclient : w.clientOf? c.key c.provider with
  | none => exact ⟨(.ok .notCached, w), c.session_of_none policy hclient, h, .rfl, nofun⟩
  | some client =>
    refine ⟨_, c.session_eq policy h hclient, Plan.atRest_exec _ h, Plan.onward_exec _ w, ?_⟩
    intro f hf
    cases hopen : w.breaker.isOpenAt c.provider.name w.clock with
    | true =>
      rw [RetryPolicy.call_of_open hopen] at hf
      cases hf
    | false =>
      obtain ⟨last, hcalled⟩ :=
        policy.call_of_closed (c.calm_attempt client) hopen
      exact RetryPolicy.isFatal_of_answer (hcalled.answered.symm.trans hf)

end PolicyCall

/-- A call whose circuit is open asks nobody. Any other makes attempts as long as they are
    retryable and the policy allows it, and ends as the last one's result says. -/
theorem call_makes_attempts_while_retryable (policy : RetryPolicy) (c : PolicyCall) {w : World}
    (h : w.AtRest) {client : Nat} (hclient : w.clientOf? c.key c.provider = some client) :
    ∃ r : CallResult × World, c.session policy w = (r.1.mapError .failure, r.2) ∧
      (w.breaker.isOpenAt c.provider.name w.clock = true →
        r = (.ok .notCached,
          (w.count (.breakerSkipped c.provider)).count (.outcome c.provider "not_cached"))) ∧
      (w.breaker.isOpenAt c.provider.name w.clock = false →
        ∃ last, policy.Called c.provider (c.attempt client) w last r) :=
  ⟨_, c.session_eq policy h hclient, RetryPolicy.call_of_open,
    policy.call_of_closed (c.calm_attempt client)⟩

/-- A server error is retried, and the refusal that follows opens the circuit. -/
theorem call_makes_attempts_while_retryable_twice :
    let refusals : Script :=
      { provider := .premiumize, kind := .torrent,
        answers := [.error (.status .server 503 "/cache/check" "")],
        fallback := .error (.status .client 429 "/cache/check" ""),
        listings := [], files := .ok [], link := .ok none, delayMs := 7, asked := (0, 0, 0) }
    let w := World.start [.scripted refusals] (.ofStandard .standard) ⟨.memory, default⟩
      ⟨[], [], .common⟩ (fun _ => 0)
    let policy : RetryPolicy := ⟨3, 100, 5000⟩
    ∃ r : CallResult × World,
      policy.resolveProvider (.torrent "hash" "magnet") .premiumize w =
        (r.1.mapError .failure, r.2) ∧
      policy.Called .premiumize (Attempt.resolve 0 .premiumize (.torrent "hash" "magnet")) w 1 r ∧
      r.1.toOption.map Outcome.label = some "client_error" ∧
      r.2.breaker.openUntil.get? "premiumize" = some 5114 := by
  intro refusals w policy
  have hrest : w.AtRest := ⟨Limiter.atRest_ofStandard .standard, rfl⟩
  have hclient : w.clientOf? (.torrent "hash" "magnet") .premiumize = some 0 := rfl
  obtain ⟨r, hr, -, hclosed⟩ := call_makes_attempts_while_retryable policy
    (.resolve (.torrent "hash" "magnet") .premiumize) hrest hclient
  obtain ⟨last, hcalled⟩ := hclosed rfl
  have hlast : last = 1 := by
    rcases Nat.lt_trichotomy last 1 with hless | heq | hmore
    · rw [Nat.lt_one_iff.mp hless] at hcalled
      exact absurd (hcalled.isLast.stops (by decide)) (by decide)
    · exact heq
    · exact absurd (hcalled.isLast.before hmore) (by decide)
  subst hlast
  refine ⟨r, hr, hcalled, ?_, ?_⟩
  · rw [hcalled.answered]
    decide
  · refine hcalled.circuit.trans ?_
    decide

end LinkRelay
