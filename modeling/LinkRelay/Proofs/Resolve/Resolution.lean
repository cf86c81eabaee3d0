import LinkRelay.Proofs.Resolve.Interleaving
set_option autoImplicit false

/-!
# What a resolution comes to

Whatever the order in which the clients of a key are asked, each provider answers what it would
answer alone, and is left as it would be left alone.
-/

namespace LinkRelay

open RetryPolicy (AlikeResults)

def answerOf (clients : List (Nat × Provider)) (finishes : List (Finish CallResult)) :
    Except Failure (List Resolution) :=
  match firstFailure? finishes with
  | some f => .error f
  | none => .ok (resolutionsOf clients finishes)

def Machine.isAnswered (m : Machine CallResult) : Bool :=
  m.isOver || (firstFailure? m.finishes).isSome

theorem Machine.isOver_of_isAnswered {m : Machine CallResult} (h : m.isAnswered = true)
    (hnone : firstFailure? m.finishes = none) : m.isOver = true := by
  rw [isAnswered, hnone] at h
  exact (Bool.or_false _).symm.trans h

theorem firstFailure?_of_ok {finishes : List (Finish CallResult)}
    (h : ∀ f ∈ finishes, ∃ outcome, f.result = .ok outcome) : firstFailure? finishes = none := by
  refine List.findSome?_eq_none_iff.2 fun f hf => ?_
  obtain ⟨outcome, hok⟩ := h f hf
  rw [hok]

theorem firstFailure?_of_mem {finishes : List (Finish CallResult)} {f : Finish CallResult}
    (h : f ∈ finishes) {failure : Failure} (hf : f.result = .error failure) :
    ∃ failure, firstFailure? finishes = some failure := by
  refine Option.isSome_iff_exists.1 (List.findSome?_isSome_iff.2 ⟨f, h, ?_⟩)
  rw [hf]
  rfl

theorem mem_of_firstFailure? {finishes : List (Finish CallResult)} {failure : Failure}
    (h : firstFailure? finishes = some failure) :
    ∃ f ∈ finishes, f.result = .error failure := by
  obtain ⟨f, hf, hfound⟩ := List.exists_of_findSome?_eq_some h
  refine ⟨f, hf, ?_⟩
  cases hresult : f.result with
  | ok outcome =>
    rw [hresult] at hfound
    cases hfound
  | error e =>
    rw [hresult] at hfound
    cases hfound
    rfl

theorem forall₂_filterMap {α β γ : Type} {R : β → γ → Prop} {f : α → β} {g : α → Option γ}
    {l : List α} (h : ∀ a ∈ l, ∃ c, g a = some c ∧ R (f a) c) :
    List.Forall₂ R (l.map f) (l.filterMap g) := by
  induction l with
  | nil => exact .nil
  | cons a rest ih =>
    obtain ⟨c, hc, hrelated⟩ := h a List.mem_cons_self
    rw [List.map_cons, List.filterMap_cons_some hc]
    exact .cons hrelated (ih fun b hb => h b (List.mem_cons_of_mem a hb))

namespace Foreseen

variable {calls : List (Nat × Provider)} {plan : Nat × Provider → Plan CallResult} {w : World}
variable {due : Nat → Option Nat} {left : Nat → Nat} {m : Machine CallResult} {task : Nat}

theorem start {n : Nat} (hrest : w.AtRest) (htwin : ∀ call ∈ calls,
      Plan.Twin call.2 call.1 AlikeResults (plan call) (plan call))
    (hsteps : ∀ call ∈ calls, (plan call).Takes n) :
    Foreseen calls plan w (fun task => if task < calls.length then some w.clock else none)
      (fun _ => n + 1) (.start w (calls.map plan)) := by
  have hpending : (Machine.start w (calls.map plan)).pending =
      (List.range calls.length).map fun task => (w.clock, task) := by
    rw [Machine.pending, Machine.start, List.length_map, List.append_nil]
  refine ⟨⟨?_, fun {task moment} => ?_, fun {e} he => ?_⟩, ⟨?_, fun {task a} hstage => ?_⟩,
    hrest.limiter.toSound, hrest.patient, fun _ => rfl, fun _ => rfl, fun _ => rfl, ?_,
    fun {task moment} hdue => ?_, fun {task call} hcall => ?_⟩
  · rw [hpending, List.map_map]
    exact (List.map_id _).symm ▸ List.nodup_range
  · rw [hpending]
    simp only [List.mem_map, List.mem_range, Prod.mk.injEq]
    constructor
    · rintro ⟨_, htask, rfl, rfl⟩
      exact if_pos htask
    · intro hdue
      split at hdue
      · exact ⟨task, ‹_›, Option.some.inj hdue, rfl⟩
      · cases hdue
  · rw [hpending] at he
    obtain ⟨task, -, rfl⟩ := List.mem_map.1 he
    exact Nat.le_refl _
  · intro f hf
    exact absurd hf List.not_mem_nil
  · change ((calls.map plan).map Stage.ready)[task]? = _ at hstage
    rw [List.getElem?_map, List.getElem?_map] at hstage
    cases hcall : calls[task]? <;> rw [hcall] at hstage <;> cases hstage
  · exact (List.length_map _).trans (List.length_map _)
  · split at hdue
    · assumption
    · cases hdue
  · have hmem := List.mem_of_getElem? hcall
    have hstage : (Machine.start w (calls.map plan)).stages[task]? = some (.ready (plan call)) := by
      change ((calls.map plan).map Stage.ready)[task]? = _
      rw [List.getElem?_map, List.getElem?_map, hcall]
      rfl
    rw [if_pos (List.getElem?_eq_some_iff.1 hcall).1]
    exact ⟨_, hstage, .ready (htwin call hmem) .rfl hrest rfl (hsteps call hmem)⟩

theorem result_of_finish (h : Foreseen calls plan w due left m) {f : Finish CallResult}
    (hf : f ∈ m.finishes) :
    ∃ call, calls[f.task]? = some call ∧ AlikeResults ((plan call).exec w).1 f.result ∧
      World.Agrees call.2 call.1 ((plan call).exec w).2 m.world := by
  have hresult := h.results hf
  have htask : f.task < calls.length := h.size ▸ (List.getElem?_eq_some_iff.1 hresult).1
  have hcall := List.getElem?_eq_getElem htask
  obtain ⟨stage, hstage, hforetold⟩ := h.foretold hcall
  obtain rfl : stage = .finished f.result := Option.some.inj (hstage.symm.trans hresult)
  generalize due f.task = due, left f.task = left at hforetold
  cases hforetold with
  | finished halike hagrees => exact ⟨_, hcall, halike, hagrees⟩

theorem finish_of_isOver (h : Foreseen calls plan w due left m) (hover : m.isOver = true)
    {call : Nat × Provider} (hcall : calls[task]? = some call) :
    ∃ f, m.finishes.find? (fun f => f.task = task) = some f ∧
      AlikeResults ((plan call).exec w).1 f.result ∧
      World.Agrees call.2 call.1 ((plan call).exec w).2 m.world := by
  obtain ⟨stage, hstage, -⟩ := h.foretold hcall
  have hfinished := List.all_eq_true.1 hover stage (List.mem_of_getElem? hstage)
  cases stage with
  | ready | inLine | atHead => cases hfinished
  | finished result =>
    obtain ⟨f, hf, htask⟩ := h.listed hstage
    have hlisted : (m.finishes.find? fun f => f.task = task).isSome = true :=
      List.find?_isSome.2 ⟨f, hf, decide_eq_true htask⟩
    obtain ⟨f, hfound⟩ := Option.isSome_iff_exists.1 hlisted
    have hnumber := List.find?_some hfound
    obtain rfl : f.task = task := of_decide_eq_true hnumber
    obtain ⟨call', hcall', halike, hagrees⟩ := h.result_of_finish (List.mem_of_find?_eq_some hfound)
    obtain rfl : call = call' := Option.some.inj (hcall.symm.trans hcall')
    exact ⟨f, hfound, halike, hagrees⟩

theorem failure_alone (h : Foreseen calls plan w due left m) {failure : Failure}
    (hfailure : firstFailure? m.finishes = some failure) :
    ∃ call ∈ calls, ((plan call).exec w).1 = .error failure := by
  obtain ⟨f, hf, hresult⟩ := mem_of_firstFailure? hfailure
  obtain ⟨call, hcall, halike, -⟩ := h.result_of_finish hf
  refine ⟨call, List.mem_of_getElem? hcall, ?_⟩
  rw [hresult] at halike
  generalize ((plan call).exec w).1 = alone at halike
  cases halike
  rfl

theorem no_failure (h : Foreseen calls plan w due left m)
    (hsucceed : ∀ call ∈ calls, ∃ outcome, ((plan call).exec w).1 = .ok outcome) :
    firstFailure? m.finishes = none := by
  cases hfailure : firstFailure? m.finishes with
  | none => rfl
  | some failure =>
    obtain ⟨call, hcall, hfailed⟩ := h.failure_alone hfailure
    obtain ⟨outcome, hok⟩ := hsucceed call hcall
    rw [hfailed] at hok
    cases hok

theorem failure_of_alone (h : Foreseen calls plan w due left m) (hanswered : m.isAnswered = true)
    {call : Nat × Provider} (hcall : call ∈ calls) {failure : Failure}
    (halone : ((plan call).exec w).1 = .error failure) :
    ∃ failure, firstFailure? m.finishes = some failure := by
  rcases Bool.or_eq_true _ _ ▸ hanswered with hover | hfailed
  · obtain ⟨task, hcall⟩ := List.mem_iff_getElem?.1 hcall
    obtain ⟨f, hfound, halike, -⟩ := h.finish_of_isOver hover hcall
    have hmem := List.mem_of_find?_eq_some hfound
    rw [halone] at halike
    generalize hresult : f.result = result at halike
    cases halike with
    | error => exact firstFailure?_of_mem hmem hresult
  · exact Option.isSome_iff_exists.1 hfailed

theorem resolutions_of_isOver (h : Foreseen calls plan w due left m) (hover : m.isOver = true)
    (hnone : firstFailure? m.finishes = none) :
    List.Forall₂ (fun call r => call ∈ calls ∧ r.provider = call.2 ∧
        AlikeResults ((plan call).exec w).1 (.ok r.outcome) ∧
        World.Agrees call.2 call.1 ((plan call).exec w).2 m.world)
      calls (resolutionsOf calls m.finishes) := by
  rw [resolutionsOf]
  conv => arg 2; rw [← List.zipIdx_map_fst 0 calls]
  refine forall₂_filterMap fun (call, task) hmem => ?_
  have hcall := List.mem_zipIdx_iff_getElem?.1 hmem
  obtain ⟨f, hfound, halike, hagrees⟩ := h.finish_of_isOver hover hcall
  dsimp only
  rw [hfound, Option.bind_some]
  cases hresult : f.result with
  | ok outcome => exact ⟨_, rfl, List.mem_of_getElem? hcall, rfl, hresult ▸ halike, hagrees⟩
  | error failure =>
    obtain ⟨failure, hsome⟩ := firstFailure?_of_mem (List.mem_of_find?_eq_some hfound) hresult
    rw [hnone] at hsome
    cases hsome

end Foreseen

theorem Client.provider_of_wired {c c' : Client} (h : c.isWired = true) (h' : c'.isWired = true)
    (hkind : c.kind = c'.kind) : c.provider = c'.provider := by
  cases c with
  | scripted script => cases h
  | premiumize service =>
    cases c' with
    | scripted script => cases h'
    | premiumize service' => rfl
    | easynews service' => cases hkind
  | easynews service =>
    cases c' with
    | scripted script => cases h'
    | premiumize service' => cases hkind
    | easynews service' => rfl

namespace World

variable {w : World} {kind : Kind} {client : Nat × Provider}

theorem mem_clientsFor : client ∈ w.clientsFor kind ↔
    ∃ c, w.clients[client.1]? = some c ∧ c.supports kind = true ∧ c.provider = client.2 := by
  rw [clientsFor, List.mem_map]
  constructor
  · rintro ⟨⟨c, n⟩, hmem, rfl⟩
    obtain ⟨hmem, hsupports⟩ := List.mem_filter.1 hmem
    exact ⟨c, List.mem_zipIdx_iff_getElem?.1 hmem, hsupports, rfl⟩
  · rintro ⟨c, hc, hsupports, hprovider⟩
    exact ⟨(c, client.1), List.mem_filter.2 ⟨List.mem_zipIdx_iff_getElem?.2 hc, hsupports⟩,
      Prod.ext rfl hprovider⟩

theorem allApart_clientsFor (h : ((w.clientsFor kind).map (·.2)).Nodup) :
    w.AllApart (w.clientsFor kind) := by
  refine (List.pairwise_map.1 h).imp_of_mem fun {a b} ha hb hproviders => ⟨hproviders, ?_, ?_⟩
  all_goals
    obtain ⟨c, hc, hsupports, hprovider⟩ := mem_clientsFor.1 ha
    obtain ⟨c', hc', hsupports', hprovider'⟩ := mem_clientsFor.1 hb
  · intro hclients
    rw [hclients, hc'] at hc
    cases hc
    exact hproviders (hprovider.symm.trans hprovider')
  · rw [wired, wired, hc, hc', ← Bool.and_eq_false_iff]
    refine Bool.eq_false_iff.2 fun hwired => ?_
    obtain ⟨hwired, hwired'⟩ := (Bool.and_eq_true _ _).mp hwired
    have hkind : c.kind = c'.kind :=
      (of_decide_eq_true hsupports).trans (of_decide_eq_true hsupports').symm
    have hsame := Client.provider_of_wired hwired hwired' hkind
    exact hproviders (hprovider.symm.trans (hsame.trans hprovider'))

theorem clientOf?_mem {key : Key} {p : Provider} {n : Nat} (h : w.clientOf? key p = some n) :
    (n, p) ∈ w.clientsFor key.kind := by
  obtain ⟨found, hfound, rfl⟩ := Option.map_eq_some_iff.1 h
  have hprovider := List.find?_some hfound
  exact of_decide_eq_true hprovider ▸ List.mem_of_find?_eq_some hfound

theorem clientOf?_of_nodup {key : Key} (h : ((w.clientsFor key.kind).map (·.2)).Nodup)
    (hclient : client ∈ w.clientsFor key.kind) : w.clientOf? key client.2 = some client.1 := by
  have hlisted : ((w.clientsFor key.kind).find? fun c => c.2 = client.2).isSome = true :=
    List.find?_isSome.2 ⟨client, hclient, decide_eq_true rfl⟩
  obtain ⟨found, hfound⟩ := Option.isSome_iff_exists.1 hlisted
  have hprovider := List.find?_some hfound
  have hsame : found = client := List.inj_on_of_nodup_map h (List.mem_of_find?_eq_some hfound)
    hclient (of_decide_eq_true hprovider)
  rw [clientOf?, hfound, hsame]
  rfl

end World

namespace RetryPolicy

variable {policy : RetryPolicy} {key : Key} {w : World} {m : Machine CallResult}

theorem resolveProvider_eq (policy : RetryPolicy) (hrest : w.AtRest)
    (hproviders : ((w.clientsFor key.kind).map (·.2)).Nodup) {client : Nat × Provider}
    (hclient : client ∈ w.clientsFor key.kind) :
    policy.resolveProvider key client.2 w =
      (((policy.resolveCall key client).exec w).1.mapError .failure,
        ((policy.resolveCall key client).exec w).2) :=
  PolicyCall.session_eq policy (.resolve key client.2) hrest
    (World.clientOf?_of_nodup hproviders hclient)

theorem length_le_of_nodup {providers : List Provider} (h : providers.Nodup) :
    providers.length ≤ 2 := by
  have hall : providers ⊆ [.premiumize, .easynews] := fun p _ => by cases p <;> simp
  exact (List.subperm_of_subset h hall).length_le

theorem toGo_start (policy : RetryPolicy) (h : ((w.clientsFor key.kind).map (·.2)).Nodup) :
    (Machine.start w ((w.clientsFor key.kind).map (policy.resolveCall key))).toGo
        (w.clientsFor key.kind).length (fun _ => 19 * (policy.retries + 1) + 1 + 1) <
      policy.turnsFor (w.clientsFor key.kind).length := by
  have hfew := length_le_of_nodup h
  rw [List.length_map] at hfew
  rw [Machine.toGo, Finset.sum_const, Finset.card_range, Nat.nsmul_eq_mul, turnsFor]
  change _ + 0 < _
  generalize (w.clientsFor key.kind).length = n at hfew
  obtain rfl | rfl | rfl : n = 0 ∨ n = 1 ∨ n = 2 := by omega
  all_goals omega

theorem resolve_eq (hrest : w.AtRest) {m : Machine CallResult}
    (hrun : (Machine.start w ((w.clientsFor key.kind).map (policy.resolveCall key))).run
      (fun finishes => (firstFailure? finishes).isSome) true
      (policy.turnsFor (w.clientsFor key.kind).length) = (.settled, m)) :
    policy.resolve key w =
      ((answerOf (w.clientsFor key.kind) m.finishes).mapError .failure, m.close .settled) := by
  let plans := (w.clientsFor key.kind).map (policy.resolveCall key)
  let enough (finishes : List (Finish CallResult)) := (firstFailure? finishes).isSome
  let fuel := policy.turnsFor (w.clientsFor key.kind).length
  have hworld : w.runAll plans enough fuel = (some m.finishes, m.close .settled) := by
    rw [World.runAll, hrest.patient, Option.any_none, Bool.and_false, hrun]
    rfl
  have hall : Session.runAll plans enough fuel w = (.ok m.finishes, m.close .settled) := by
    simp only [Session.runAll, ExceptT.mk, hworld]
  have hget : (get : Session World) w = (.ok w, w) := rfl
  refine (Session.bind_of_ok hget _).trans ((Session.bind_of_ok hall _).trans ?_)
  rw [answerOf]
  cases firstFailure? m.finishes <;> rfl

/-- A resolution that is the answer of its provider alone, but for the moments at which files were
    listed, in a world in which the provider's circuit, window and counters are left as alone. -/
structure AsAlone (policy : RetryPolicy) (key : Key) (w w' : World) (client : Nat × Provider)
    (r : Resolution) : Prop where
  provider : r.provider = client.2
  alone : ∃ outcome v, policy.resolveProvider key client.2 w = (.ok outcome, v) ∧
    outcome.undated = r.outcome.undated ∧ World.Agrees client.2 client.1 v w'

theorem providers_of_asAlone {w' : World} {clients : List (Nat × Provider)}
    {resolutions : List Resolution}
    (h : List.Forall₂ (policy.AsAlone key w w') clients resolutions) :
    resolutions.map (·.provider) = clients.map (·.2) := by
  induction h with
  | nil => rfl
  | cons hfirst _ ih => rw [List.map_cons, List.map_cons, hfirst.provider, ih]

/-- What holds after any steps of a resolution, in whatever order. -/
structure Interleaved (policy : RetryPolicy) (key : Key) (w : World) (asked : List (Option Nat))
    (m : Machine CallResult) : Prop where
  bounded : asked.length < policy.turnsFor (w.clientsFor key.kind).length
  goesOn (h : m.isAnswered = false) : ∃ asked' m', m.Step asked' m'
  asks {client : Nat} (h : some client ∈ asked) :
    ∃ c, w.clients[client]? = some c ∧ c.supports key.kind = true
  strangers {client : Nat} {c : Client} (h : w.clients[client]? = some c)
    (hkind : c.supports key.kind = false) : m.world.clients[client]? = some c
  answered (h : m.isAnswered = true)
    (halone : ∀ p ∈ (w.clientsFor key.kind).map (·.2),
      ∃ outcome, (policy.resolveProvider key p w).1 = .ok outcome) :
    ∃ resolutions, answerOf (w.clientsFor key.kind) m.finishes = .ok resolutions ∧
      providersFor key w = (.ok (resolutions.map (·.provider)), w) ∧
      List.Forall₂ (policy.AsAlone key w (m.close .settled)) (w.clientsFor key.kind) resolutions
  failed (h : m.isAnswered = true) {p : Provider} (hp : p ∈ (w.clientsFor key.kind).map (·.2))
    {failure : Failure} (halone : (policy.resolveProvider key p w).1 = .error (.failure failure)) :
    ∃ failure, answerOf (w.clientsFor key.kind) m.finishes = .error failure ∧
      failure.isFatal = true ∧ ∃ p ∈ (w.clientsFor key.kind).map (·.2),
        (policy.resolveProvider key p w).1 = .error (.failure failure)

theorem foreseen_start (policy : RetryPolicy) (key : Key) (hrest : w.AtRest) :
    Foreseen (w.clientsFor key.kind) (policy.resolveCall key) w
    (fun task => if task < (w.clientsFor key.kind).length then some w.clock else none)
    (fun _ => 19 * (policy.retries + 1) + 1 + 1)
    (.start w ((w.clientsFor key.kind).map (policy.resolveCall key))) :=
  .start hrest (fun client _ => policy.twin_resolveCall key client) fun client _ =>
    takes_call (Attempt.takes_resolve client.1 client.2 key)

theorem mapError_failure_injective {α : Type} {a b : Except Failure α}
    (h : a.mapError Halt.failure = b.mapError Halt.failure) : a = b := by
  cases a <;> cases b <;> cases h <;> rfl

theorem isFatal_of_resolveProvider (hrest : w.AtRest) {p : Provider} {failure : Failure}
    (h : (policy.resolveProvider key p w).1 = .error (.failure failure)) :
    failure.isFatal = true := by
  obtain ⟨r, hr, -, -, hfatal⟩ := PolicyCall.answered policy (.resolve key p) hrest
  change policy.resolveProvider key p w = _ at hr
  rw [hr] at h
  exact hfatal failure (mapError_failure_injective (b := .error failure) h)

theorem result_of_resolveProvider (hrest : w.AtRest)
    (hproviders : ((w.clientsFor key.kind).map (·.2)).Nodup) {client : Nat × Provider}
    (hclient : client ∈ w.clientsFor key.kind) {r : CallResult}
    (h : (policy.resolveProvider key client.2 w).1 = r.mapError .failure) :
    ((policy.resolveCall key client).exec w).1 = r := by
  rw [policy.resolveProvider_eq hrest hproviders hclient] at h
  exact mapError_failure_injective h

theorem asAlone_of_isOver (hrest : w.AtRest)
    (hproviders : ((w.clientsFor key.kind).map (·.2)).Nodup) {due : Nat → Option Nat}
    {left : Nat → Nat}
    (h : Foreseen (w.clientsFor key.kind) (policy.resolveCall key) w due left m)
    (hover : m.isOver = true) (hnone : firstFailure? m.finishes = none) :
    List.Forall₂ (policy.AsAlone key w (m.close .settled)) (w.clientsFor key.kind)
      (resolutionsOf (w.clientsFor key.kind) m.finishes) := by
  refine (h.resolutions_of_isOver hover hnone).imp ?_
  rintro call r ⟨hcall, hprovider, halike, hagrees⟩
  have hcalled := policy.resolveProvider_eq hrest hproviders hcall
  rw [Machine.close_of_isOver hover]
  generalize (policy.resolveCall key call).exec w = alone at halike hagrees hcalled
  obtain ⟨result, v⟩ := alone
  cases halike with
  | ok hundated => exact ⟨hprovider, _, v, hcalled, hundated, hagrees⟩

theorem Interleaved.of_foreseen (hrest : w.AtRest)
    (hproviders : ((w.clientsFor key.kind).map (·.2)).Nodup) {due : Nat → Option Nat}
    {left : Nat → Nat} {asked : List (Option Nat)}
    (h : Foreseen (w.clientsFor key.kind) (policy.resolveCall key) w due left m)
    (hbounded : asked.length < policy.turnsFor (w.clientsFor key.kind).length)
    (hasked : ∀ client, some client ∈ asked → client ∈ (w.clientsFor key.kind).map (·.1)) :
    policy.Interleaved key w asked m where
  bounded := hbounded
  goesOn hanswered := h.progress (Bool.or_eq_false_iff.1 hanswered).1
  asks {client} hclient := by
    obtain ⟨call, hcall, rfl⟩ := List.mem_map.1 (hasked client hclient)
    obtain ⟨c, hc, hsupports, -⟩ := World.mem_clientsFor.1 hcall
    exact ⟨c, hc, hsupports⟩
  strangers {client c} hc hkind := by
    refine (h.strangers fun call hcall hsame => ?_).trans hc
    obtain ⟨c', hc', hsupports, -⟩ := World.mem_clientsFor.1 hcall
    rw [hsame, hc, Option.some_inj] at hc'
    rw [hc', hsupports] at hkind
    cases hkind
  answered hanswered hsucceed := by
    have hnone : firstFailure? m.finishes = none := h.no_failure fun call hcall => by
      obtain ⟨outcome, hok⟩ := hsucceed call.2 (List.mem_map_of_mem hcall)
      exact ⟨outcome, result_of_resolveProvider (r := .ok outcome) hrest hproviders hcall hok⟩
    have hover := Machine.isOver_of_isAnswered hanswered hnone
    have hasAlone := asAlone_of_isOver hrest hproviders h hover hnone
    refine ⟨_, by rw [answerOf, hnone], ?_, hasAlone⟩
    rw [providers_of_asAlone hasAlone]
    rfl
  failed hanswered p hp failure hfailed := by
    obtain ⟨call, hcall, rfl⟩ := List.mem_map.1 hp
    have hresult :=
      result_of_resolveProvider (r := .error failure) hrest hproviders hcall hfailed
    obtain ⟨first, hfirst⟩ := h.failure_of_alone hanswered hcall hresult
    obtain ⟨call', hcall', hfailed'⟩ := h.failure_alone hfirst
    have hprovider : (policy.resolveProvider key call'.2 w).1 = .error (.failure first) := by
      rw [policy.resolveProvider_eq hrest hproviders hcall', hfailed']
      rfl
    exact ⟨first, by rw [answerOf, hfirst], isFatal_of_resolveProvider hrest hprovider, call'.2,
      List.mem_map_of_mem hcall', hprovider⟩

theorem resolve_foreseen (policy : RetryPolicy) (key : Key) (hrest : w.AtRest)
    (hproviders : ((w.clientsFor key.kind).map (·.2)).Nodup) :
    ∃ asked m due left,
      (Machine.start w ((w.clientsFor key.kind).map (policy.resolveCall key))).Runs asked m ∧
      Foreseen (w.clientsFor key.kind) (policy.resolveCall key) w due left m ∧
      m.isAnswered = true ∧ policy.resolve key w =
        ((answerOf (w.clientsFor key.kind) m.finishes).mapError .failure, m.close .settled) := by
  have hstart := policy.foreseen_start key hrest
  have happart := World.allApart_clientsFor hproviders
  obtain ⟨asked, m, hruns, hanswered, hrun⟩ := hstart.run_settles happart
    (fun finishes => (firstFailure? finishes).isSome) true (policy.toGo_start hproviders)
  obtain ⟨⟨due, left, h, -⟩, -⟩ := hstart.runs happart hruns
  exact ⟨asked, m, due, left, hruns, h, hanswered, resolve_eq hrest hrun⟩

end RetryPolicy

/-- In whatever order the clients of a key are asked, the resolution ends, nobody else is asked,
    and each provider answers as it would alone; if one fails alone, the answer is a failure of one
    of them. The resolver's own order is one of these. -/
theorem resolve_answers_as_each_provider_alone (policy : RetryPolicy) (key : Key) {w : World}
    (hrest : w.AtRest) (hproviders : ((w.clientsFor key.kind).map (·.2)).Nodup) :
    let start := Machine.start w ((w.clientsFor key.kind).map (policy.resolveCall key))
    (∀ asked m, start.Runs asked m → policy.Interleaved key w asked m) ∧
      ∃ asked m, start.Runs asked m ∧ m.isAnswered = true ∧
        policy.resolve key w =
          ((answerOf (w.clientsFor key.kind) m.finishes).mapError .failure, m.close .settled) := by
  intro start
  have hstart := policy.foreseen_start key hrest
  have happart := World.allApart_clientsFor hproviders
  have hfuel := policy.toGo_start hproviders
  constructor
  · intro asked m hruns
    obtain ⟨⟨due, left, h, hbounded⟩, hasked⟩ := hstart.runs happart hruns
    exact .of_foreseen hrest hproviders h (by omega) hasked
  · obtain ⟨asked, m, due, left, hruns, -, hanswered, hresolve⟩ :=
      policy.resolve_foreseen key hrest hproviders
    exact ⟨asked, m, hruns, hanswered, hresolve⟩

/-- One provider has the content, the other refuses and has its circuit opened. -/
theorem resolve_answers_as_each_provider_alone_of_two :
    let file : CachedFile := ⟨"a.mkv", 7, none, "link", .premiumize, 0, ∅⟩
    let having : Script :=
      { provider := .premiumize, kind := .torrent, answers := [], fallback := .ok true,
        listings := [], files := .ok [file], link := .ok none, delayMs := 7, asked := (0, 0, 0) }
    let refusing : Script :=
      { provider := .easynews, kind := .torrent, answers := [.error (.status .server 503 "/" "")],
        fallback := .error (.status .client 429 "/" ""), listings := [], files := .ok [],
        link := .ok none, delayMs := 3, asked := (0, 0, 0) }
    let w := World.start [.scripted having, .scripted refusing] (.ofStandard ⟨1, 50⟩)
      ⟨.memory, default⟩ ⟨[], [], .common⟩ (fun _ => 0)
    let policy : RetryPolicy := ⟨3, 100, 5000⟩
    let key : Key := .torrent "hash" "magnet"
    ((w.clientsFor key.kind).map (·.2)).Nodup ∧
      ∃ resolutions w', policy.resolve key w = (.ok resolutions, w') ∧
        resolutions.map (fun r => (r.provider, r.outcome.label)) =
          [(.premiumize, "cached"), (.easynews, "client_error")] ∧
        List.Forall₂ (policy.AsAlone key w w') (w.clientsFor key.kind) resolutions := by
  intro file having refusing w policy key
  have hrest : w.AtRest := ⟨Limiter.atRest_ofStandard _, rfl⟩
  have hproviders : ((w.clientsFor key.kind).map (·.2)).Nodup := by decide
  have halone : ∀ p ∈ (w.clientsFor key.kind).map (·.2),
      ∃ outcome, (policy.resolveProvider key p w).1 = .ok outcome := by
    have hsome : ∀ p ∈ (w.clientsFor key.kind).map (·.2),
        (policy.resolveProvider key p w).1.toOption.isSome = true := by decide
    intro p hp
    have hp := hsome p hp
    cases hresult : (policy.resolveProvider key p w).1 with
    | ok outcome => exact ⟨outcome, rfl⟩
    | error halt =>
      rw [hresult] at hp
      cases hp
  obtain ⟨hall, asked, m, hruns, hanswered, hresolve⟩ :=
    resolve_answers_as_each_provider_alone policy key hrest hproviders
  obtain ⟨resolutions, hanswer, -, hasAlone⟩ := (hall asked m hruns).answered hanswered halone
  rw [hanswer] at hresolve
  refine ⟨hproviders, resolutions, _, hresolve, ?_, hasAlone⟩
  have hlabels : (policy.resolve key w).1.toOption.map
      (List.map fun r => (r.provider, r.outcome.label)) =
        some [(.premiumize, "cached"), (.easynews, "client_error")] := by decide
  rw [hresolve] at hlabels
  exact Option.some.inj hlabels

end LinkRelay
