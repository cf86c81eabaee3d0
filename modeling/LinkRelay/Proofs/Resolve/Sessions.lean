import LinkRelay.Proofs.Resolve.Hall
set_option autoImplicit false

/-!
# Sessions in a hall

A session's answer is what its caller is told in a hall into which nobody else comes. So with the
clients and the limits of a valid configuration no session fails either, however many there are one
after the other.
-/

namespace LinkRelay

namespace Machine

variable {α : Type} {w w' : World} {stage : Stage α} {plan : Plan α} {m : Machine α}
variable {moment : Nat}

theorem runs_of_move (hgoing : stage.isFinished = false)
    (hmove : stage.move 0 w = ⟨.ready plan, w', [], .atOnce⟩)
    (hrest : ∃ asked, (solo w' (.ready plan)).Runs asked m) :
    ∃ asked, (solo w stage).Runs asked m := by
  obtain ⟨asked, hrest⟩ := hrest
  have hstep : (solo w stage).Step _ _ := .go (List.mem_singleton_self 0) rfl hgoing
  change (solo w stage).Step _ ((solo w stage).moved 0 (stage.move 0 w)) at hstep
  rw [hmove] at hstep
  exact ⟨_, .step hstep hrest⟩

theorem runs_of_wait (hgoing : stage.isFinished = false) {stage' : Stage α}
    (hgoing' : stage'.isFinished = false)
    (hmove : stage.move 0 w = ⟨stage', w', [], .later moment⟩) (hlater : w'.clock ≤ moment)
    (hrest : ∃ asked, (solo { w' with clock := moment } stage').Runs asked m) :
    ∃ asked, (solo w stage).Runs asked m := by
  obtain ⟨asked, hrest⟩ := hrest
  have hstep : (solo w stage).Step _ ((solo w stage).moved 0 (stage.move 0 w)) :=
    .go (List.mem_singleton_self 0) rfl hgoing
  have hasleep : (solo w stage).moved 0 ⟨stage', w', [], .later moment⟩ =
      asleep w' stage' moment := by
    cases stage' <;> first | rfl | cases hgoing'
  have hpass : (asleep w' stage' moment).Step none ((asleep w' stage' moment).passTo moment) :=
    .pass rfl rfl
  rw [passTo_asleep hlater] at hpass
  rw [hmove, hasleep] at hstep
  exact ⟨_, .step hstep (.step hpass hrest)⟩

theorem runs_awaitTurn (h : w.AtRest) (name : String) (k : Except Failure Nat → Plan α)
    (hrest : ∃ asked, (solo (w.grant name).2 (.ready (k (w.grant name).1))).Runs asked m) :
    ∃ asked, (solo w (.ready (.awaitTurn name k))).Runs asked m := by
  have hasked := h.asked name
  have hmove : (Stage.ready (.awaitTurn name k)).move 0 w = (Plan.awaitTurn name k).move 0 w := rfl
  rw [Plan.move] at hmove
  dsimp only at hmove
  generalize World.askWindow _ (w.limiter.arrive name 0).1 0 = answer at hasked hmove
  cases hasked with
  | refused hgrant | admitted hgrant =>
    rw [hgrant] at hrest
    exact runs_of_move rfl hmove hrest
  | @held moment next waiting after hlater hpatient hagain hgrant =>
    -- the caller sleeps until there is room, and asks once more
    rw [hgrant] at hrest
    have hagain' : (Stage.atHead (w.limiter.arrive name 0).1 name waiting.clock k).move 0
        { waiting with clock := moment } =
          ⟨.ready (k (.ok (after.clock - waiting.clock))), after, [], .atOnce⟩ := by
      rw [Stage.move, Stage.moveAgain, hagain]
      rfl
    exact runs_of_wait rfl rfl hmove hlater (runs_of_move rfl hagain' hrest)

theorem runs_solo (plan : Plan α) (h : w.AtRest) :
    ∃ asked, (solo w (.ready plan)).Runs asked (ended (plan.exec w)) := by
  induction plan generalizing w with
  | done a =>
    exact ⟨_, .step (.go (List.mem_singleton_self 0) rfl rfl) (.refl _)⟩
  | checkCircuit p k ih => exact runs_of_move rfl rfl (ih _ (h.atBreaker _))
  | openCircuit p ms k ih => exact runs_of_move rfl rfl (ih (h.atBreaker _))
  | count s k ih => exact runs_of_move rfl rfl (ih (h.atCount s))
  | awaitTurn name k ih => exact runs_awaitTurn h name k (ih _ (h.grant name))
  | place c q k ih => exact runs_of_move rfl rfl (ih _ (h.place c q))
  | receive c q k ih => exact runs_of_move rfl rfl (ih _ (h.receive c q))
  | pause ms k ih =>
    cases ms with
    | zero => exact runs_of_move rfl rfl (ih h)
    | succ ms => exact runs_of_wait rfl rfl rfl (Nat.le_add_right _ _) (ih (h.atPass (ms + 1)))
  | readClock k ih => exact runs_of_move rfl rfl (ih _ h.atReadWall)

end Machine
namespace Hall

variable {policy : RetryPolicy} {movers : List (Option Nat)} {h₀ : Hall}

theorem Run.machine {posted : List Posted} {m m' : Machine CallResult} {asked : List (Option Nat)}
    (hrun : Run policy h₀ movers ⟨m, posted⟩) (hruns : m.Runs asked m') :
    ∃ movers', Run policy h₀ movers' ⟨m', posted⟩ := by
  induction hruns generalizing movers with
  | refl m => exact ⟨movers, hrun⟩
  | step hstep _ ih =>
    cases hstep with
    | go hqueue hstage hgoing => exact ih (hrun.step (.go hqueue hstage hgoing))
    | pass _ _ => exact ih (hrun.step (.pass _))

theorem machine_enter_opened (policy : RetryPolicy) (w : World) (r : Request) :
    ((opened w).enter policy r).machine =
      .start w ((r.clients w).map (r.plan policy ·)) :=
  Machine.enter_start w _

end Hall

namespace Posted

variable {p : Posted} {all : List (Finish CallResult)}

theorem ownOf_first (hfirst : p.first = 0) (h : ∀ f ∈ all, f.task < p.clients.length) :
    p.ownOf all = all := by
  rw [ownOf, List.filterMap_congr (g := some) fun f hf => ?_, List.filterMap_some]
  rw [hfirst, if_pos ⟨Nat.zero_le _, (Nat.zero_add _).symm ▸ h f hf⟩]
  rfl

theorem reply_everyone {key : Key} {clients : List (Nat × Provider)} {m : Machine CallResult}
    (hrecorded : m.Recorded) (hsize : m.stages.length = clients.length)
    (hanswered : m.isAnswered = true) :
    (⟨.everyone key, clients, 0⟩ : Posted).reply? m.finishes =
      some ((answerOf clients m.finishes).map .resolutions) := by
  have hown : (⟨.everyone key, clients, 0⟩ : Posted).ownOf m.finishes = m.finishes :=
    ownOf_first rfl fun f hf => hsize ▸ (List.getElem?_eq_some_iff.1 (hrecorded.results hf)).1
  unfold reply?
  dsimp only
  rw [hown, if_pos]
  rcases Bool.or_eq_true _ _ ▸ hanswered with hover | hfailed
  · refine Bool.or_eq_true _ _ ▸ .inl (List.all_eq_true.2 fun task htask => ?_)
    obtain ⟨f, hf, hsame⟩ := hrecorded.listed_of_isOver hover (hsize ▸ List.mem_range.1 htask)
    exact List.any_eq_true.2 ⟨f, hf, beq_iff_eq.2 hsame⟩
  · rw [hfailed, Bool.or_true]

theorem reply_one {call : PolicyCall} {client : Nat × Provider} {moment : Nat}
    {result : CallResult} :
    (⟨.one call, [client], 0⟩ : Posted).reply? [⟨0, moment, result⟩] =
      some (result.map .outcome) :=
  rfl

end Posted

namespace Request

variable {w : World}

def session (policy : RetryPolicy) : Request → Session Reply
  | .everyone key => do return .resolutions (← policy.resolve key)
  | .one call => do return .outcome (← call.session policy)

def alone (w : World) (r : Request) : Posted := ⟨r, r.clients w, 0⟩

/-- A session's answer is what its caller is told in some run of a hall, where nobody else is. -/
structure InHall (policy : RetryPolicy) (r : Request) (w : World) (movers : List (Option Nat))
    (m : Machine CallResult) (answer : Except Failure Reply) : Prop where
  run : (Hall.opened w).Run policy movers ⟨m, [r.alone w]⟩
  reply : (r.alone w).reply? m.finishes = some answer
  session : r.session policy w = (answer.mapError .failure, m.close .settled)
  rests : (m.close .settled).AtRest
  ended {reply : Reply} (h : answer = .ok reply) : m.isOver = true

variable {policy : RetryPolicy} {r : Request} {m : Machine CallResult}

theorem run_alone {asked : List (Option Nat)}
    (hruns : (Machine.start w ((r.clients w).map (r.plan policy ·))).Runs asked m) :
    ∃ movers, (Hall.opened w).Run policy movers ⟨m, [r.alone w]⟩ :=
  Hall.Run.machine (.step .refl (.enter r)) (Hall.machine_enter_opened policy w r ▸ hruns)

theorem session_of_call (call : PolicyCall) {result : CallResult} {w' : World}
    (h : call.session policy w = (result.mapError .failure, w')) :
    (Request.one call).session policy w =
      ((result.map Reply.outcome).mapError .failure, w') := by
  cases result with
  | ok outcome => exact Session.bind_of_ok h _
  | error f => exact Session.bind_of_error h _

theorem session_of_resolve (key : Key) {result : Except Failure (List Resolution)} {w' : World}
    (h : policy.resolve key w = (result.mapError .failure, w')) :
    (Request.everyone key).session policy w =
      ((result.map Reply.resolutions).mapError .failure, w') := by
  cases result with
  | ok all => exact Session.bind_of_ok h _
  | error f => exact Session.bind_of_error h _

theorem inHall_call (policy : RetryPolicy) (call : PolicyCall) (hrest : w.AtRest) :
    ∃ movers m answer, (Request.one call).InHall policy w movers m answer := by
  cases hclient : w.clientOf? call.key call.provider with
  | none =>
    have hclients : (Request.one call).clients w = [] := by
      rw [clients, hclient]
      rfl
    have hnotCached : call.session policy w =
        ((Except.ok Outcome.notCached : CallResult).mapError .failure, w) :=
      call.session_of_none policy hclient
    have hruns : (Machine.start w (((Request.one call).clients w).map
        ((Request.one call).plan policy ·))).Runs [] (.start w []) := by
      rw [hclients]
      exact .refl _
    obtain ⟨movers, hrun⟩ := run_alone hruns
    refine ⟨movers, .start w [], _, hrun, ?_, session_of_call call hnotCached, hrest,
      fun _ => rfl⟩
    rw [alone, hclients]
    rfl
  | some client =>
    have hclients : (Request.one call).clients w = [(client, call.provider)] := by
      rw [clients, hclient]
      rfl
    let plan := policy.call call.provider (call.attempt client)
    obtain ⟨asked, hsolo⟩ := Machine.runs_solo plan hrest
    have hruns : (Machine.start w (((Request.one call).clients w).map
        ((Request.one call).plan policy ·))).Runs asked (.ended (plan.exec w)) := by
      rw [hclients]
      exact hsolo
    obtain ⟨movers, hrun⟩ := run_alone hruns
    refine ⟨movers, .ended (plan.exec w), _, hrun, ?_,
      session_of_call call (call.session_eq policy hrest hclient), Plan.atRest_exec _ hrest,
      fun _ => rfl⟩
    rw [alone, hclients]
    exact Posted.reply_one

theorem inHall_resolve (policy : RetryPolicy) (key : Key) (hrest : w.AtRest)
    (hproviders : ((w.clientsFor key.kind).map (·.2)).Nodup) :
    ∃ movers m answer, (Request.everyone key).InHall policy w movers m answer := by
  obtain ⟨asked, m, due, left, hruns, hforeseen, hanswered, hresolve⟩ :=
    policy.resolve_foreseen key hrest hproviders
  obtain ⟨movers, hrun⟩ := run_alone (r := .everyone key) hruns
  refine ⟨movers, m, _, hrun, Posted.reply_everyone hforeseen.toRecorded hforeseen.size hanswered,
    session_of_resolve key hresolve, hforeseen.atRest_close hrest, fun hok => ?_⟩
  refine Machine.isOver_of_isAnswered hanswered ?_
  rw [answerOf] at hok
  cases hnone : firstFailure? m.finishes with
  | none => rfl
  | some f =>
    rw [hnone] at hok
    cases hok

theorem exists_inHall (policy : RetryPolicy) (r : Request) (hrest : w.AtRest)
    (hproviders : ∀ kind, ((w.clientsFor kind).map (·.2)).Nodup) :
    ∃ movers m answer, r.InHall policy w movers m answer := by
  cases r with
  | everyone key => exact inHall_resolve policy key hrest (hproviders key.kind)
  | one call => exact inHall_call policy call hrest

theorem session_ok (policy : RetryPolicy) (r : Request) (hrest : w.AtRest) (hsetUp : w.SetUp) :
    ∃ reply w', r.session policy w = (.ok reply, w') ∧ w'.AtRest ∧ w'.SetUp := by
  obtain ⟨movers, m, answer, hin⟩ := r.exists_inHall policy hrest hsetUp.nodup_clientsFor
  obtain ⟨due, left, hkept⟩ := (Hall.kept_opened policy hsetUp hrest.limiter).run hin.run
  obtain ⟨reply, rfl⟩ := Posted.reply_ok hkept.results hin.reply
  have hclose := Machine.close_of_isOver (hin.ended rfl)
  exact ⟨reply, _, hin.session, hin.rests, hclose ▸ hkept.setUp⟩

theorem sessions_ok (policy : RetryPolicy) (rs : List Request) (hrest : w.AtRest)
    (hsetUp : w.SetUp) : ∃ replies w', rs.mapM (session policy) w = (.ok replies, w') := by
  induction rs generalizing w with
  | nil => exact ⟨[], w, rfl⟩
  | cons r rest ih =>
    obtain ⟨reply, v, hreply, hrest, hsetUp⟩ := r.session_ok policy hrest hsetUp
    obtain ⟨replies, w', hreplies⟩ := ih hrest hsetUp
    refine ⟨reply :: replies, w', ?_⟩
    rw [List.mapM_cons]
    exact (Session.bind_of_ok hreply _).trans (Session.bind_of_ok hreplies _)

end Request

/-- With the clients and the limits of a valid configuration nobody is told of a failure: neither
    of requests that are made one after the other, nor of any that come at any time, in whatever
    order their calls make their steps and whatever the services answer. Every call comes to its
    end, since no window that a call waits at is without a quota, and no link fails on its base
    address. -/
theorem requests_of_valid_config_succeed (standard : Limit) {domains : Domain.Rules} {c : Config}
    (hvalid : c.validate domains = .ok ()) {w : World}
    (hclients : w.clients = Client.allOfConfig domains c)
    (hlimiter : w.limiter = .ofConfig standard c) (hpatient : w.deadline = none) :
    let policy := RetryPolicy.ofConfig c
    (∀ rs : List Request, ∃ replies w', rs.mapM (Request.session policy) w = (.ok replies, w')) ∧
      (∀ movers h, (Hall.opened w).Run policy movers h → h.Serves policy movers) ∧
      ∀ r : Request, ∃ movers m answer, r.InHall policy w movers m answer := by
  intro policy
  have hsetUp := World.setUp_ofConfig (Config.isValid_of_validate hvalid) standard hclients hlimiter
  have hrest : w.AtRest := ⟨hlimiter ▸ Limiter.atRest_ofConfig standard c, hpatient⟩
  refine ⟨fun rs => Request.sessions_ok policy rs hrest hsetUp, fun movers h hrun => ?_,
    fun r => r.exists_inHall policy hrest hsetUp.nodup_clientsFor⟩
  obtain ⟨due, left, hkept⟩ := (Hall.kept_opened policy hsetUp hrest.limiter).run hrun
  exact hkept.serves

/-- An address that ends in slashes, and a provider that is switched off and could not be asked. -/
theorem requests_of_valid_config_succeed_behind_slashes :
    let news : ProviderConfig := { ProviderConfig.standard .easynews with
      baseUrl := some "https://news.test/members//", username := some "me", password := some "open" }
    let off : ProviderConfig := { ProviderConfig.standard .premiumize with
      enabled := false, limit := ⟨0, 0⟩ }
    let c : Config := { Config.standard with providers := [off, news] }
    let w := World.start (Client.allOfConfig .common c) (.ofConfig .standard c)
      ⟨.memory, .ofConfig c⟩ ⟨[], [], .common⟩ (fun _ => 0)
    let file : CachedFile := ⟨"a.mkv", 7, none, "link", .easynews, 0, ∅⟩
    let key : Key := .usenet "release"
    let rs : List Request :=
      [.one (.refresh key file), .everyone key, .one (.resolve key .easynews)]
    c.validate .common = .ok () ∧
      (∃ replies w', rs.mapM (Request.session (.ofConfig c)) w = (.ok replies, w')) ∧
      ∀ movers h, (Hall.opened w).Run (.ofConfig c) movers h → h.Serves (.ofConfig c) movers := by
  intro news off c w file key rs
  have hvalid : c.validate .common = .ok () := by decide +kernel
  obtain ⟨hsessions, hserves, -⟩ :=
    requests_of_valid_config_succeed .standard hvalid (w := w) rfl rfl rfl
  exact ⟨hvalid, hsessions rs, hserves⟩

end LinkRelay
