import LinkRelay.Proofs.Resolve.Chronicle
set_option autoImplicit false

/-!
# Every question has its own admission

A call may put a question to its client only when the last thing it was told is that it is admitted
under its provider's name, and once it is admitted it does nothing else before. So there are as many
questions as admissions that are not lost with their task, and the admissions of a provider under
all calls together stay within its limit.
-/

namespace LinkRelay

inductive Paid (p : Provider) : List Access → Prop
  | admitted (earlier : List Access) : Paid p (.admitted p.name :: earlier)
  | heldBack {earlier : List Access} (h : Paid p earlier) :
    Paid p (.counted (.heldBack p) :: earlier)

/-- What a call over a client may do after a trace: to ask it needs an admission, and with one it
    goes on to ask. -/
structure Deals (client : Nat × Provider) (earlier : List Access) (access : Access) : Prop where
  asked {c : Nat} {q : Question} (h : access = .asked c q) : c = client.1 ∧ Paid client.2 earlier
  admitted {name : String} (h : access = .admitted name) : name = client.2.name
  paid (h : Paid client.2 earlier) :
    (∃ q, access = .asked client.1 q) ∨ access = .counted (.heldBack client.2)

section Rule

variable {client : Nat × Provider} {earlier : List Access} {access : Access}

theorem Deals.aside (hunpaid : ¬Paid client.2 earlier) (haside : access.isAside = true) :
    Deals client earlier access where
  asked h := by
    subst h
    cases haside
  admitted h := by
    subst h
    cases haside
  paid h := absurd h hunpaid

theorem Deals.turn (hunpaid : ¬Paid client.2 earlier) :
    Deals client earlier (.admitted client.2.name) :=
  ⟨nofun, fun h => (Access.admitted.inj h).symm, fun h => absurd h hunpaid⟩

theorem Deals.question (hpaid : Paid client.2 earlier) (q : Question) :
    Deals client earlier (.asked client.1 q) :=
  ⟨fun h => by cases h; exact ⟨rfl, hpaid⟩, nofun, fun _ => .inl ⟨q, rfl⟩⟩

theorem Deals.heldBack (client : Nat × Provider) (earlier : List Access) :
    Deals client earlier (.counted (.heldBack client.2)) :=
  ⟨nofun, nofun, fun _ => .inr rfl⟩

theorem Paid.of_aside {p : Provider} (h : Paid p (access :: earlier))
    (haside : access.isAside = true) : Paid p earlier := by
  cases h with
  | admitted => cases haside
  | heldBack h => exact h

theorem not_paid_cons {p : Provider} (hunpaid : ¬Paid p earlier) (haside : access.isAside = true) :
    ¬Paid p (access :: earlier) :=
  fun h => hunpaid (h.of_aside haside)

theorem not_paid_asked {p : Provider} {c : Nat} {q : Question} :
    ¬Paid p (.asked c q :: earlier) := nofun

theorem Deals.question_after {later : List Access}
    (h : Rule.Allows (Deals client) (later ++ earlier)) (hpaid : Paid client.2 earlier) :
    (∃ rest waited q, later = rest ++ .asked client.1 q :: waited ∧
        ∀ access ∈ waited, access = .counted (.heldBack client.2)) ∨
      (∀ access ∈ later, access = .counted (.heldBack client.2)) ∧
        Paid client.2 (later ++ earlier) := by
  induction later with
  | nil => exact .inr ⟨List.forall_mem_nil _, hpaid⟩
  | cons last later ih =>
    rcases ih h.2 with ⟨rest, waited, q, rfl, hwaited⟩ | ⟨hlater, hstill⟩
    · exact .inl ⟨last :: rest, waited, q, rfl, hwaited⟩
    · obtain ⟨q, rfl⟩ | rfl := h.1.paid hstill
      · exact .inl ⟨[], later, q, rfl, hlater⟩
      · exact .inr ⟨List.forall_mem_cons.2 ⟨rfl, hlater⟩, hstill.heldBack⟩

end Rule

namespace Plan

variable {α : Type} {client : Nat × Provider} {P : List Access → α → Prop} {trace : List Access}

inductive AsksNext (client : Nat) : Plan α → Prop
  | place {q : Question} {k : Nat → Plan α} : AsksNext client (.place client q k)
  | count {s : Series} {k : Plan α} (h : AsksNext client k) : AsksNext client (.count s k)

theorem Follows.asksNext {plan : Plan α} (h : plan.Follows (Deals client) P trace)
    (hP : ∀ trace a, P trace a → ¬Paid client.2 trace) (hpaid : Paid client.2 trace) :
    plan.AsksNext client.1 := by
  induction h with
  | done h => exact absurd hpaid (hP _ _ h)
  | checkCircuit h =>
    obtain ⟨q, hq⟩ | hq := (h true).paid hpaid <;> cases hq
  | openCircuit h | pause h =>
    obtain ⟨q, hq⟩ | hq := h.paid hpaid <;> cases hq
  | count h _ ih =>
    obtain ⟨q, hq⟩ | hq := h.paid hpaid
    · cases hq
    · cases hq
      exact .count (ih hpaid.heldBack)
  | awaitTurn hadmitted =>
    obtain ⟨q, hq⟩ | hq := hadmitted.paid hpaid <;> cases hq
  | place h =>
    obtain ⟨rfl, -⟩ := h.asked rfl
    exact .place
  | receive h =>
    obtain ⟨q, hq⟩ | hq := (h (.error (.internal (.told "")))).paid hpaid <;> cases hq
  | readClock h =>
    obtain ⟨q, hq⟩ | hq := (h 0).paid hpaid <;> cases hq

end Plan

namespace Attempt

variable {α : Type} {client : Nat × Provider} {trace : List Access}

def Unpaid (p : Provider) (trace : List Access) (_ : Except Failure α) : Prop := ¬Paid p trace

theorem follows_awaitTurn (hunpaid : ¬Paid client.2 trace) :
    (awaitTurn client.2).run.Follows (Deals client)
      (fun trace r => Paid client.2 trace ↔ ∃ a, r = .ok a) trace := by
  refine follows_bind (P := fun trace r => Paid client.2 trace ↔ ∃ a, r = .ok a)
    (.awaitTurn (.turn hunpaid) (.aside hunpaid rfl) (fun waited => .done ?_) (.done ?_))
    (fun trace waited hpaid => ?_) fun trace f hpaid => ?_
  · exact ⟨fun _ => ⟨waited, rfl⟩, fun _ => .admitted _⟩
  · exact ⟨fun h => absurd (h.of_aside rfl) hunpaid, nofun⟩
  · have hpaid := hpaid.2 ⟨waited, rfl⟩
    split
    · exact .count (.heldBack client trace) (.done ⟨fun _ => ⟨(), rfl⟩, fun _ => hpaid.heldBack⟩)
    · exact .done ⟨fun _ => ⟨(), rfl⟩, fun _ => hpaid⟩
  · exact ⟨fun h => (hpaid.1 h).elim nofun, nofun⟩

theorem follows_ask (hpaid : Paid client.2 trace) (q : Question) :
    (ask client.1 q).run.Follows (Deals client) (Unpaid client.2) trace := by
  have hpaused (delay : Nat) : ¬Paid client.2 (.paused delay :: .asked client.1 q :: trace) :=
    not_paid_cons not_paid_asked rfl
  refine .place (.question hpaid q) fun delay => .pause (.aside not_paid_asked rfl) ?_
  exact .receive (fun _ => .aside (hpaused delay) rfl) fun _ =>
    .done (not_paid_cons (hpaused delay) rfl)

theorem follows_turn_ask (hunpaid : ¬Paid client.2 trace) (q : Question) {β : Type}
    {f : q.Answer → Attempt β} (hf : ∀ trace a, ¬Paid client.2 trace →
      (f a).run.Follows (Deals client) (Unpaid client.2) trace) :
    (awaitTurn client.2 >>= fun _ => ask client.1 q >>= f).run.Follows (Deals client)
      (Unpaid client.2) trace := by
  refine follows_bind (follows_awaitTurn hunpaid) (fun trace _ hpaid => ?_)
    fun trace f h hpaid => ?_
  · exact follows_bind (follows_ask (hpaid.2 ⟨_, rfl⟩) q) (fun trace a => hf trace a)
      fun _ _ h => h
  · exact (h.1 hpaid).elim nofun

theorem follows_resolve (hunpaid : ¬Paid client.2 trace) (key : Key) :
    (resolve client.1 client.2 key).run.Follows (Deals client) (Unpaid client.2) trace := by
  refine follows_turn_ask hunpaid (.isCached key) fun trace isCached hunpaid => ?_
  cases isCached with
  | false => exact .done hunpaid
  | true =>
    refine follows_turn_ask hunpaid (.files key) fun trace files hunpaid => ?_
    exact .done hunpaid

theorem follows_refresh {file : CachedFile} (hfile : file.provider = client.2)
    (hunpaid : ¬Paid client.2 trace) (key : Key) :
    (refresh client.1 key file).run.Follows (Deals client) (Unpaid client.2) trace := by
  rw [refresh, hfile]
  refine follows_turn_ask hunpaid (.link key file) fun trace link hunpaid => ?_
  cases link with
  | none => exact .done hunpaid
  | some link =>
    exact .readClock (fun _ => .aside hunpaid rfl) fun _ => .done (not_paid_cons hunpaid rfl)

end Attempt

theorem Deals.conducts (client : Nat × Provider) :
    Rule.Conducts (Deals client) client.2 (¬Paid client.2 ·) (Attempt.Unpaid client.2) where
  aside _ hunpaid haside := ⟨.aside hunpaid haside, not_paid_cons hunpaid haside⟩
  kept _ _ hunpaid haside := not_paid_cons hunpaid haside
  between := id
  conceded := id
  skipped := not_paid_cons nofun rfl
  begun := nofun

theorem Request.plan_deals (policy : RetryPolicy) (w : World) (r : Request)
    (client : Nat × Provider) (hclient : client ∈ r.clients w) :
    (r.plan policy client).Follows (Deals client) (Attempt.Unpaid client.2) [] := by
  have hconducts := Deals.conducts client
  cases r with
  | everyone key =>
    exact policy.follows_call hconducts fun _ hunpaid => Attempt.follows_resolve hunpaid key
  | one call =>
    obtain ⟨n, -, rfl⟩ := Option.map_eq_some_iff.1 (Option.mem_toList.1 hclient)
    cases call with
    | resolve key p =>
      exact policy.follows_call hconducts fun _ hunpaid => Attempt.follows_resolve hunpaid key
    | refresh key file =>
      exact policy.follows_call hconducts fun _ hunpaid => Attempt.follows_refresh rfl hunpaid key

end LinkRelay
