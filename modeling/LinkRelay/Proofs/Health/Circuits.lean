import Mathlib.Data.List.Induction
import LinkRelay.Health.Status
import LinkRelay.Proofs.Resolve.Circuits
import LinkRelay.Proofs.Resolve.Views
set_option autoImplicit false

/-!
# What is known of circuits

A breaker is opened, asked for one circuit, asked for all that are open, and read for the health of
providers, in any order. Whatever was asked before, a circuit is open exactly if its latest opening
has not run out: `isOpenAt_after` says so of a breaker with a history, and
`circuits_follow_latest_openings` of all that can be asked, and of what is resolved later.
-/

namespace LinkRelay

namespace Health

theorem length_openCircuits (h : Health) (hnodup : h.providers.Nodup) (now : Nat) :
    (h.openCircuits now).length =
      h.providers.countP fun p => h.breaker.isOpenAt p.name now := by
  have hperm : (h.openCircuits now).Perm
      ((h.providers.filter fun p => h.breaker.isOpenAt p.name now).map (·.name)) := by
    have hnames : ((h.providers.filter fun p => h.breaker.isOpenAt p.name now).map
        (·.name)).Nodup := (hnodup.filter _).map_on fun _ _ _ _ => Provider.name_injective
    refine (List.perm_ext_iff_of_nodup ((h.breaker.nodup_openNames now).filter _) hnames).2
      fun name => ?_
    rw [List.mem_filter, Breaker.mem_openNames, List.contains_iff_mem, List.mem_map, List.mem_map]
    constructor
    · rintro ⟨hopen, p, hp, rfl⟩
      exact ⟨p, List.mem_filter.2 ⟨hp, hopen⟩, rfl⟩
    · rintro ⟨p, hp, rfl⟩
      obtain ⟨hp, hopen⟩ := List.mem_filter.1 hp
      exact ⟨hopen, p, hp, rfl⟩
  rw [hperm.length_eq, List.length_map, List.countP_eq_length_filter]

end Health

/-- What a status says of providers of which some are open. -/
def HealthStatus.Means (providers : List Provider) (isOpen : Provider → Prop) : HealthStatus → Prop
  | .unhealthy => providers = [] ∨ ∀ p ∈ providers, isOpen p
  | .degraded => (∃ p ∈ providers, isOpen p) ∧ ∃ p ∈ providers, ¬ isOpen p
  | .healthy => providers ≠ [] ∧ ∀ p ∈ providers, ¬ isOpen p

theorem HealthStatus.Means.unique {providers : List Provider} {isOpen : Provider → Prop}
    {s s' : HealthStatus} (h : s.Means providers isOpen) (h' : s'.Means providers isOpen) :
    s = s' := by
  have hsome (hne : providers ≠ []) : ∃ p, p ∈ providers := List.exists_mem_of_ne_nil _ hne
  cases s <;> cases s' <;> grind [HealthStatus.Means]

namespace Health

theorem means_status (h : Health) (hnodup : h.providers.Nodup) (now : Nat) :
    (h.status now).Means h.providers fun p => h.breaker.isOpenAt p.name now = true := by
  have hall := List.countP_eq_length (p := fun p : Provider => h.breaker.isOpenAt p.name now)
    (l := h.providers)
  have hsome := List.countP_pos_iff (p := fun p : Provider => h.breaker.isOpenAt p.name now)
    (l := h.providers)
  unfold status
  rw [h.length_openCircuits hnodup]
  dsimp only
  split
  next hnone =>
    rw [Bool.or_eq_true, List.isEmpty_iff, beq_iff_eq, hall] at hnone
    exact hnone
  next hasked =>
    rw [Bool.or_eq_true, List.isEmpty_iff, beq_iff_eq, hall, not_or] at hasked
    obtain ⟨hne, hnotAll⟩ := hasked
    split
    next hpositive =>
      refine ⟨hsome.1 hpositive, ?_⟩
      push Not at hnotAll
      exact hnotAll
    next hzero => exact ⟨hne, fun p hp hopen => hzero (hsome.2 ⟨p, hp, hopen⟩)⟩

theorem status_eq_iff (h : Health) (hnodup : h.providers.Nodup) (now : Nat) (s : HealthStatus) :
    h.status now = s ↔
      s.Means h.providers fun p => h.breaker.isOpenAt p.name now = true :=
  ⟨fun heq => heq ▸ h.means_status hnodup now, fun hs => (h.means_status hnodup now).unique hs⟩

end Health

inductive CircuitCall where
  | trip (name : String) (duration : Nat)
  | check (name : String)
  | openNames
  | status (providers : List Provider)

inductive CircuitAnswer where
  | tripped
  | isOpen (yes : Bool)
  | names (names : List String)
  | status (s : HealthStatus)
  deriving DecidableEq

def CircuitCall.isQuestion : CircuitCall → Bool
  | .trip .. => false
  | _ => true

namespace Breaker

variable {b c : Breaker} {now : Nat}

def health (b : Breaker) (providers : List Provider) : Health := ⟨providers, b, .empty⟩

def serve (b : Breaker) (now : Nat) : CircuitCall → CircuitAnswer × Breaker
  | .trip name duration => (.tripped, b.trip name duration now)
  | .check name =>
    let (yes, b) := b.check name now
    (.isOpen yes, b)
  | .openNames => (.names (b.openNames now), b)
  | .status providers => (.status ((b.health providers).status now), b)

def after (b : Breaker) (calls : List (Nat × CircuitCall)) : Breaker :=
  calls.foldl (fun b call => (b.serve call.1 call.2).2) b

def answers (b : Breaker) : List (Nat × CircuitCall) → List CircuitAnswer
  | [] => []
  | (moment, call) :: calls =>
    let (answer, b) := b.serve moment call
    answer :: b.answers calls

theorem after_append (b : Breaker) (calls : List (Nat × CircuitCall)) (last : Nat × CircuitCall) :
    b.after (calls ++ [last]) = ((b.after calls).serve last.1 last.2).2 :=
  List.foldl_append

theorem AlikeFrom.health (h : AlikeFrom now b c) (providers : List Provider) {moment : Nat}
    (hle : now ≤ moment) : (b.health providers).status moment = (c.health providers).status moment := by
  have hopen : (b.health providers).openCircuits moment = (c.health providers).openCircuits moment := by
    unfold Health.openCircuits Breaker.health
    rw [h.openNames hle]
  unfold Health.status
  rw [hopen]
  rfl

theorem AlikeFrom.serve (h : AlikeFrom now b c) (call : CircuitCall) {moment : Nat}
    (hle : now ≤ moment) : (b.serve moment call).1 = (c.serve moment call).1 ∧
      AlikeFrom now (b.serve moment call).2 (c.serve moment call).2 := by
  cases call with
  | trip name duration => exact ⟨Eq.refl _, h.trip name duration moment⟩
  | check name =>
    obtain ⟨hanswer, hleft⟩ := h.check name hle
    exact ⟨congrArg CircuitAnswer.isOpen hanswer, hleft⟩
  | openNames => exact ⟨congrArg CircuitAnswer.names (h.openNames hle), h⟩
  | status providers => exact ⟨congrArg CircuitAnswer.status (h.health providers hle), h⟩

theorem AlikeFrom.answers (h : AlikeFrom now b c) (calls : List (Nat × CircuitCall))
    (hcalls : ∀ call ∈ calls, now ≤ call.1) : b.answers calls = c.answers calls := by
  induction calls generalizing b c with
  | nil => rfl
  | cons call calls ih =>
    obtain ⟨hanswer, hleft⟩ := h.serve call.2 (hcalls call List.mem_cons_self)
    have hrest := ih hleft fun later hlater => hcalls later (List.mem_cons_of_mem _ hlater)
    exact congrArg₂ List.cons hanswer hrest

theorem AlikeFrom.after (h : AlikeFrom now b c) (calls : List (Nat × CircuitCall))
    (hcalls : ∀ call ∈ calls, now ≤ call.1) : AlikeFrom now (b.after calls) (c.after calls) := by
  induction calls generalizing b c with
  | nil => exact h
  | cons call calls ih =>
    obtain ⟨-, hleft⟩ := h.serve call.2 (hcalls call List.mem_cons_self)
    exact ih hleft fun later hlater => hcalls later (List.mem_cons_of_mem _ hlater)

/-- No question leaves a breaker that can be told from the one it was put to. -/
theorem alikeFrom_serve_of_isQuestion (b : Breaker) (now : Nat) (call : CircuitCall)
    (hcall : call.isQuestion = true) : AlikeFrom now (b.serve now call).2 b := by
  cases call with
  | trip => exact absurd hcall Bool.false_ne_true
  | check name => exact .checked b name now
  | openNames => exact .rfl
  | status => exact .rfl

end Breaker

def openings (name : String) (past : List (Nat × CircuitCall)) : List (Nat × Nat) :=
  past.filterMap fun
    | (moment, .trip other duration) => if other = name then some (moment, duration) else none
    | _ => none

/-- The latest opening of a circuit has not run out. -/
def OpenSince (past : List (Nat × CircuitCall)) (name : String) (now : Nat) : Prop :=
  ∃ moment duration, (openings name past).getLast? = some (moment, duration) ∧
    now < moment + duration

section OpenSince

variable (past : List (Nat × CircuitCall)) (name : String) (now : Nat)

theorem not_openSince_nil : ¬ OpenSince [] name now := by
  rintro ⟨_, _, hlast, -⟩
  cases hlast

theorem openSince_append_trip (moment : Nat) (other : String) (duration : Nat) :
    OpenSince (past ++ [(moment, .trip other duration)]) name now ↔
      if name = other then now < moment + duration else OpenSince past name now := by
  unfold OpenSince openings
  rw [List.filterMap_append]
  by_cases hname : name = other
  · simp [hname]
  · have hother : other ≠ name := Ne.symm hname
    simp [hname, hother]

theorem openSince_append_question (moment : Nat) {call : CircuitCall}
    (hcall : call.isQuestion = true) :
    OpenSince (past ++ [(moment, call)]) name now ↔ OpenSince past name now := by
  have hsame : openings name (past ++ [(moment, call)]) = openings name past := by
    unfold openings
    rw [List.filterMap_append]
    cases call with
    | trip => exact absurd hcall Bool.false_ne_true
    | check | openNames | status => exact List.append_nil _
  unfold OpenSince
  rw [hsame]

end OpenSince

namespace Breaker

theorem isOpenAt_after (past : List (Nat × CircuitCall)) (name : String) {now : Nat}
    (hpast : ∀ call ∈ past, call.1 ≤ now) :
    (closed.after past).isOpenAt name now = true ↔ OpenSince past name now := by
  induction past using List.reverseRecOn with
  | nil => exact iff_of_false Bool.false_ne_true (not_openSince_nil name now)
  | append_singleton past last ih =>
    obtain ⟨moment, call⟩ := last
    have hlast : moment ≤ now := hpast (moment, call) List.mem_concat_self
    have ih := ih fun earlier hearlier => hpast earlier (List.mem_append_left _ hearlier)
    rw [after_append]
    by_cases hcall : call.isQuestion = true
    · rw [openSince_append_question past name now moment hcall, ← ih,
        alikeFrom_serve_of_isQuestion _ moment call hcall name now hlast]
    · cases call with
      | trip other duration =>
        rw [openSince_append_trip, ← ih]
        change ((closed.after past).trip other duration moment).isOpenAt name now = true ↔ _
        rw [isOpenAt_trip]
        split
        · exact decide_eq_true_iff
        · rfl
      | check | openNames | status => exact absurd rfl hcall

end Breaker

/-- After any calls at moments up to now, a circuit is open exactly if its latest opening has not
    run out: the check says so, the open circuits are those, in order and without repetition, and
    the health of distinct providers is by theirs alone. To have asked changes no later answer, and
    nothing that is resolved later. -/
theorem circuits_follow_latest_openings (past : List (Nat × CircuitCall)) (now : Nat)
    (hpast : ∀ call ∈ past, call.1 ≤ now) :
    let b := Breaker.closed.after past
    (∀ name, (b.check name now).1 = true ↔ OpenSince past name now) ∧
    ((b.openNames now).Pairwise (· < ·) ∧
      ∀ name, name ∈ b.openNames now ↔ OpenSince past name now) ∧
    (∀ h : Health, h.breaker = b → h.providers.Nodup → ∀ s : HealthStatus,
      h.status now = s ↔ s.Means h.providers fun p => OpenSince past p.name now) ∧
    ∀ call : CircuitCall, call.isQuestion = true →
      ∀ later : List (Nat × CircuitCall), (∀ call ∈ later, now ≤ call.1) →
        let asked := (b.serve now call).2
        asked.answers later = b.answers later ∧
        ∀ w : World, now ≤ w.clock → ∀ (policy : RetryPolicy) (key : Key),
          let after := { w with breaker := asked.after later }
          let unasked := { w with breaker := b.after later }
          (policy.resolve key).AlikeIn after unasked ∧
          (∀ p, (policy.resolveProvider key p).AlikeIn after unasked) ∧
          ∀ file, (policy.refreshFile key file).AlikeIn after unasked := by
  intro b
  have hopen (name : String) : b.isOpenAt name now = true ↔ OpenSince past name now :=
    Breaker.isOpenAt_after past name hpast
  refine ⟨fun name => ?_, ⟨b.sorted_openNames now, fun name => ?_⟩, ?_, ?_⟩
  · rw [Breaker.check_fst, hopen]
  · rw [Breaker.mem_openNames, hopen]
  · rintro h hbreaker hnodup s
    rw [h.status_eq_iff hnodup now s, hbreaker]
    simp only [hopen]
  · intro call hcall later hlater asked
    have halike : asked.AlikeFrom now b := b.alikeFrom_serve_of_isQuestion now call hcall
    refine ⟨halike.answers later hlater, fun w hclock policy key => ?_⟩
    have hworlds : World.Alike { w with breaker := asked.after later }
        { w with breaker := b.after later } := ⟨rfl, (halike.after later hlater).mono hclock⟩
    exact ⟨Session.Overlooks.resolve policy key hworlds,
      fun p => Session.Overlooks.resolveProvider policy key p hworlds,
      fun file => Session.Overlooks.refreshFile policy key file hworlds⟩

def shortened : List (Nat × CircuitCall) :=
  [(0, .trip "premiumize" 100), (1, .trip "easynews" 5), (6, .check "easynews"),
    (6, .trip "premiumize" 4), (7, .trip "elsewhere" 50)]

/-- One of two providers is behind a circuit until the end of its shorter time. -/
theorem circuits_follow_latest_openings_of_shortened :
    (∀ call ∈ shortened, call.1 ≤ 9) ∧ (∀ call ∈ shortened, call.1 ≤ 10) ∧
    ((Breaker.closed.after shortened).check "premiumize" 9).1 = true ∧
    ¬ "premiumize" ∈ (Breaker.closed.after shortened).openNames 10 ∧
    ((Breaker.closed.after shortened).health [.easynews, .premiumize]).status 9 = .degraded := by
  have hearly : ∀ call ∈ shortened, call.1 ≤ 9 := by decide
  have hlate : ∀ call ∈ shortened, call.1 ≤ 10 := fun call h => (hearly call h).trans (by decide)
  obtain ⟨hcheck, -, hstatus, -⟩ := circuits_follow_latest_openings shortened 9 hearly
  obtain ⟨-, ⟨-, hnames⟩, -, -⟩ := circuits_follow_latest_openings shortened 10 hlate
  have hpremiumize : (openings "premiumize" shortened).getLast? = some (6, 4) := by decide
  have heasynews : (openings "easynews" shortened).getLast? = some (1, 5) := by decide
  refine ⟨hearly, hlate, (hcheck _).2 ⟨6, 4, hpremiumize, by decide⟩, fun hopen => ?_, ?_⟩
  · obtain ⟨moment, duration, hlast, hlt⟩ := (hnames _).1 hopen
    obtain ⟨rfl, rfl⟩ := Prod.mk.inj (Option.some.inj (hpremiumize.symm.trans hlast))
    exact absurd hlt (by decide)
  · refine (hstatus _ rfl (by decide) _).2
      ⟨⟨.premiumize, by decide, 6, 4, hpremiumize, by decide⟩, .easynews, by decide, ?_⟩
    rintro ⟨moment, duration, hlast, hlt⟩
    obtain ⟨rfl, rfl⟩ := Prod.mk.inj (Option.some.inj (heasynews.symm.trans hlast))
    exact absurd hlt (by decide)

end LinkRelay
