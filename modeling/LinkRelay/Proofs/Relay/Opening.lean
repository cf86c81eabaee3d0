import LinkRelay.Proofs.Relay.FileLink
import LinkRelay.Proofs.Store.Durability
import LinkRelay.Proofs.Stream.Delivery
set_option autoImplicit false

/-!
# Opening a stream

A link is probed before it is used, and refreshed once if it is dead. `Relay.Served` lists what
follows a probe, one use of a link after another; what the caller of `Relay.openStream` gets is
read off that list.
-/

namespace LinkRelay

namespace RangeRequest

inductive Resolved (request : RangeRequest) (size : Nat) : Except Failure ByteRange → Prop
  | range {r : ByteRange} (h : Selects (some request) size r.first) :
    Resolved request size (.ok r)
  | nothing (fault : RangeFault) (h : ∀ i, ¬ Selects (some request) size i) :
    Resolved request size (.error (.range fault))

theorem resolved_upTo {request : RangeRequest} {size start final : Nat}
    (hsome : start ≤ size - 1 → start ≤ final → Selects (some request) size start)
    (hnone : size - 1 < start ∨ final < start → ∀ i, ¬ Selects (some request) size i) :
    Resolved request size (if size - 1 < start then .error (.range (.pastEnd start size))
      else ByteRange.between start final) := by
  unfold ByteRange.between
  split
  · rename_i hpast
    exact .nothing _ (hnone (.inl hpast))
  · rename_i hstart
    split
    · rename_i hfinal
      exact .range (hsome (Nat.le_of_not_lt hstart) hfinal)
    · rename_i hfinal
      exact .nothing _ (hnone (.inr (Nat.lt_of_not_le hfinal)))

theorem resolved (request : RangeRequest) (size : Nat) :
    Resolved request size (request.resolve size) := by
  unfold resolve
  split
  · rename_i hempty
    refine .nothing _ fun i hi => ?_
    exact absurd hi.1 (by omega)
  · rename_i hsize
    rcases request with ⟨_ | start, _ | final⟩ <;> dsimp only
    · refine resolved_upTo (fun _ _ => ⟨Nat.pos_of_ne_zero hsize, trivial⟩) fun hlast => ?_
      simp only [Option.getD_none] at hlast
      omega
    · split
      · rename_i hsuffix
        exact .nothing _ fun i hi => by simp only [Selects] at hi; omega
      · refine resolved_upTo (fun _ _ => ?_) fun hlast => absurd hlast (by omega)
        simp only [Selects]
        omega
    · refine resolved_upTo (fun hstart _ => ?_) fun hlast i hi => ?_
      · simp only [Selects, Option.getD_some] at hstart ⊢
        omega
      · simp only [Selects, Option.getD_some] at hlast hi
        omega
    · refine resolved_upTo (fun hstart hfinal => ?_) fun hlast i hi => ?_
      · simp only [Selects, Option.getD_some] at hstart hfinal ⊢
        omega
      · simp only [Selects, Option.getD_some] at hlast hi
        omega

end RangeRequest

theorem Prepared.ofRange_cases (file : CachedFile) (range : Option RangeRequest) :
    (∃ p, ofRange file range = .ok p ∧
      ∀ request, range = some request → ∃ i, RangeRequest.Selects range file.size i) ∨
    ∃ fault, ofRange file range = .error (.range fault) ∧ range.isSome ∧
      ∀ i, ¬ RangeRequest.Selects range file.size i := by
  cases range with
  | none => exact .inl ⟨_, rfl, nofun⟩
  | some request =>
    have hresolved := request.resolved file.size
    rw [ofRange]
    generalize request.resolve file.size = answer at hresolved
    cases hresolved with
    | range h => exact .inl ⟨_, rfl, fun _ _ => ⟨_, h⟩⟩
    | nothing fault h => exact .inr ⟨fault, rfl, rfl, h⟩

namespace Store

theorem ofOutcome_lastChecked (provider : Provider) (outcome : FileOutcome) (at_ : Time)
    (previous : Option Record) :
    (Record.ofOutcome provider outcome at_ previous).lastChecked = at_ := by
  cases outcome <;> rfl

theorem le_nextRecord (records : List Record) (provider : Provider) (outcome : FileOutcome)
    (now : Time) : now ≤ (nextRecord records provider outcome now).lastChecked := by
  rw [nextRecord, ofOutcome_lastChecked]
  cases records.find? fun r => r.provider = provider with
  | none => exact le_refl _
  | some r => exact le_max_right _ _

theorem upsertAt_timely {s : Store} (h : s.backend.files.Timely) (path : String)
    (provider : Provider) (outcome : FileOutcome) {now : Time} (hnow : 0 ≤ now) :
    (s.upsertAt path provider outcome now).2.backend.files.Timely ∧
      match (s.upsertAt path provider outcome now).1 with
      | .ok record => record ∈ (s.upsertAt path provider outcome now).2.records path
      | .error f => f.isFatal = true := by
  let record := nextRecord (s.records path) provider outcome now
  have hrecord : 0 ≤ record.lastChecked := hnow.trans (le_nextRecord ..)
  have hfiles : Catalog.Timely (s.backend.files.insert path (replace record (s.records path))) :=
    Catalog.Every.insert h (forall_replace hrecord (Catalog.Every.records h path))
  have hmem : record ∈
      Catalog.records (s.backend.files.insert path (replace record (s.records path))) path := by
    rw [Catalog.records_insert, if_pos rfl]
    exact mem_replace_self ..
  have hupserted := s.upserted path provider outcome now
  generalize s.upsertAt path provider outcome now = result at hupserted ⊢
  cases hupserted with
  | recorded => exact ⟨hfiles, hmem⟩
  | refused _ hreason =>
    rcases hreason with ⟨hunwritten, -⟩ | ⟨fault, rfl⟩
    · have hwritten : (Snapshot.write? (s.backend.files.apply
          (.upsert path provider outcome now))).isSome := Snapshot.write?_isSome hfiles
      rw [hunwritten] at hwritten
      cases hwritten
    · exact ⟨h, rfl⟩

end Store

/-- Between two operations, with all clocks past 1970. -/
structure World.Timely (w : World) : Prop extends w.AtRest where
  calendar (n : Nat) : 0 ≤ w.calendar n
  files : w.store.backend.files.Timely

def World.Holds (w : World) (path : String) (file : CachedFile) : Prop :=
  ∃ r ∈ w.store.records path, r.toFile? = some file

theorem World.Timely.of_onward {w w' : World} (h : w.Timely) (hrest : w'.AtRest)
    (honward : w.Onward w') : w'.Timely := by
  obtain ⟨n, hn⟩ := honward.calendar
  exact ⟨hrest, fun k => hn k ▸ h.calendar (k + n), honward.store ▸ h.files⟩

/-- From a world between two operations a session comes to such a world. It fails only with the
    program's own failures, or because a path has no live link. -/
def Session.Serves {α : Type} (path : String) (P : World → Prop) (s : Session α)
    (Q : α → World → Prop) : Prop :=
  ∀ w : World, w.Timely → P w → (s w).2.Timely ∧
    match (s w).1 with
    | .ok a => Q a (s w).2
    | .error (.failure f) => f.isFatal = true ∨ f = .noLiveLink path
    | .error .abandoned => False

namespace Session.Serves

variable {α β : Type} {path : String} {P : World → Prop} {s : Session α} {Q : α → World → Prop}

theorem bind {f : α → Session β} {R : β → World → Prop} (h : Serves path P s Q)
    (hf : ∀ a, Serves path (Q a) (f a) R) : Serves path P (s >>= f) R := by
  intro w hw hp
  obtain ⟨htimely, hanswer⟩ := h w hw hp
  cases hs : s w with
  | mk answer w' =>
    rw [hs] at htimely hanswer
    cases answer with
    | ok a =>
      rw [Session.bind_of_ok hs]
      exact hf a w' htimely hanswer
    | error halt =>
      rw [Session.bind_of_error hs]
      cases halt with
      | failure f => exact ⟨htimely, hanswer⟩
      | abandoned => exact hanswer.elim

theorem pure {a : α} (h : ∀ w, P w → Q a w) : Serves path P (Pure.pure a : Session α) Q :=
  fun w hw hp => ⟨hw, h w hp⟩

theorem noLiveLink : Serves path P (Session.fail (.noLiveLink path) : Session α) Q :=
  fun _ hw _ => ⟨hw, .inr rfl⟩

theorem count (series : Series) (h : ∀ w, P w → P (w.count series)) :
    Serves path P (Session.count series) fun _ => P :=
  fun w hw hp => ⟨⟨⟨hw.limiter, hw.patient⟩, hw.calendar, hw.files⟩, h w hp⟩

theorem records (path : String) :
    Serves path P (Session.records path) fun records w => w.store.records path = records :=
  fun _ hw _ => ⟨hw, rfl⟩

theorem isStale (r : Record) : Serves path P (Session.isStale r) fun _ _ => True :=
  fun _ hw _ => ⟨hw.of_onward hw.atReadWall (World.onward_readWall _), trivial⟩

theorem upsert (path : String) (provider : Provider) (outcome : FileOutcome) :
    Serves path P (Session.upsert path provider outcome)
      fun record w => record ∈ w.store.records path := by
  intro w hw _
  have hupsert : Session.upsert path provider outcome w =
    ((w.store.upsertAt path provider outcome w.wall).1.mapError .failure,
      { w.readWall.2 with store := (w.store.upsertAt path provider outcome w.wall).2 }) := rfl
  have htimely := Store.upsertAt_timely hw.files path provider outcome (hw.calendar 0)
  rw [hupsert]
  generalize w.store.upsertAt path provider outcome w.wall = answer at htimely
  refine ⟨⟨⟨hw.limiter, hw.patient⟩, fun n => hw.calendar (n + 1), htimely.1⟩, ?_⟩
  obtain ⟨answer, store⟩ := answer
  cases answer with
  | ok record => exact htimely.2
  | error f => exact .inl htimely.2

theorem call (policy : RetryPolicy) (c : PolicyCall) :
    Serves path P (c.session policy) fun _ _ => True := by
  intro w hw _
  obtain ⟨⟨answer, w'⟩, hrun, hrest, honward, hfatal⟩ := c.answered policy hw.toAtRest
  rw [hrun]
  refine ⟨hw.of_onward hrest honward, ?_⟩
  cases answer with
  | ok outcome => trivial
  | error f => exact .inl (hfatal f rfl)

end Session.Serves

namespace Relay

variable (relay : Relay) (path : String) (key : Key)

theorem revalidate_serves (remote : String) (records : List Record) (P : World → Prop) :
    Session.Serves path P (relay.revalidate path key remote records)
      fun file w => w.Holds path file := by
  induction records generalizing P with
  | nil => exact .noLiveLink
  | cons r rest ih =>
    refine (Session.Serves.isStale r).bind fun isStale => ?_
    split
    · refine (Session.Serves.call relay.policy (.resolve key r.provider)).bind fun outcome => ?_
      refine (Session.Serves.upsert path r.provider (outcome.forFile remote)).bind fun updated => ?_
      cases hfile : updated.toFile? with
      | none => exact ih _
      | some file => exact .pure fun w hw => ⟨updated, hw, hfile⟩
    · exact ih _

theorem fileLink_serves (P : World → Prop) :
    Session.Serves path P (relay.fileLink path key) fun file w => w.Holds path file := by
  refine (Session.Serves.records path).bind fun records => ?_
  cases hfile : records.findSome? Record.toFile? with
  | none => exact relay.revalidate_serves path key _ records _
  | some file =>
    obtain ⟨r, hr, hfile⟩ := List.exists_of_findSome?_eq_some hfile
    refine .pure fun w hw => ⟨r, ?_, hfile⟩
    rw [hw]
    exact hr

theorem refreshLink_serves (dead : CachedFile) (P : World → Prop) :
    Session.Serves path P (relay.refreshLink path key dead) fun fresh w => w.Holds path fresh := by
  refine (Session.Serves.call relay.policy (.refresh key dead)).bind fun outcome => ?_
  refine (Session.Serves.upsert path dead.provider (outcome.forFile dead.path)).bind
    fun updated => ?_
  have hlost : Session.Serves path (fun w => updated ∈ w.store.records path)
      (do Session.count (.linkRefreshed dead.provider false)
          Session.fail (.noLiveLink path) : Session CachedFile) fun fresh w => w.Holds path fresh :=
    (Session.Serves.count _ fun _ hw => hw).bind fun _ => .noLiveLink
  cases outcome.forFile dead.path with
  | missing | failed => exact hlost
  | cached file =>
    cases hfresh : updated.toFile? with
    | none => exact hlost
    | some fresh =>
      refine (Session.Serves.count _ fun _ hw => hw).bind fun _ => ?_
      exact .pure fun w hw => ⟨updated, hw, hfresh⟩

theorem replaceLink_serves (dead : CachedFile) :
    Session.Serves path (fun _ => True) (relay.replaceLink path key dead)
      fun fresh w => w.Holds path fresh :=
  (Session.Serves.count _ fun _ hw => hw).bind fun _ => relay.refreshLink_serves path key dead _

end Relay

/-- A use of a link while a stream is opened, with what came of it. -/
inductive LinkUse where
  | head (link : String) (status : Option Nat)
  | firstByte (link : String) (status : Option Nat)
  | refresh (dead : CachedFile) (answer : Except Halt CachedFile)
  | media (p : Prepared) (answer : Except Failure Http.Response)

inductive UseKind where
  | head
  | firstByte
  | refresh
  | media
  deriving DecidableEq

def LinkUse.kind : LinkUse → UseKind
  | .head .. => .head
  | .firstByte .. => .firstByte
  | .refresh .. => .refresh
  | .media .. => .media

namespace Relay

section

variable (relay : Relay) (path : String) (key : Key)

def Does : LinkUse → World → World → Prop
  | .head link status, w, w' =>
    Session.talk (statusOf { Http.Draft.get link with method := .head }) w = (.ok (.ok status), w')
  | .firstByte link status, w, w' =>
    Session.talk (statusOf { Http.Draft.get link with range := some "bytes=0-0" }) w =
      (.ok (.ok status), w')
  | .refresh dead answer, w, w' => relay.replaceLink path key dead w = (answer, w')
  | .media p answer, w, w' => Session.talk p.send w = (.ok answer, w')

def Performs : World → List LinkUse → World → Prop
  | w, [], w' => w' = w
  | w, use :: rest, w' => ∃ mid, relay.Does path key use w mid ∧ Performs mid rest w'

end

inductive Probe (link : String) : List LinkUse → Bool → Prop
  | head {status : Option Nat} (h : ¬ (status = some 405 ∨ status = some 501)) :
    Probe link [.head link status] (isGood status)
  | firstByte {status first : Option Nat} (h : status = some 405 ∨ status = some 501) :
    Probe link [.head link status, .firstByte link first] (isGood first)

inductive Renewed (path : String) (range : Option RangeRequest) (dead : CachedFile) :
    List LinkUse → Except Halt LinkStream → Prop
  | lost {halt : Halt} : Renewed path range dead [.refresh dead (.error halt)] (.error halt)
  | unsatisfiable {fresh : CachedFile} {fault : RangeFault}
    (h : Prepared.ofRange fresh range = .error (.range fault)) :
    Renewed path range dead [.refresh dead (.ok fresh)] (.error (.failure (.range fault)))
  | refused {fresh : CachedFile} {p : Prepared} {f : Failure}
    (h : Prepared.ofRange fresh range = .ok p) :
    Renewed path range dead [.refresh dead (.ok fresh), .media p (.error f)]
      (.error (.failure (.noLiveLink path)))
  | opened {fresh : CachedFile} {p : Prepared} {response : Http.Response}
    (h : Prepared.ofRange fresh range = .ok p) :
    Renewed path range dead [.refresh dead (.ok fresh), .media p (.ok response)]
      (.ok (.ofResponse fresh p response))

inductive Served (path : String) (range : Option RangeRequest) (file : CachedFile) :
    Bool → List LinkUse → Except Halt LinkStream → Prop
  | dead {uses : List LinkUse} {result : Except Halt LinkStream}
    (h : Renewed path range file uses result) : Served path range file false uses result
  | unsatisfiable {fault : RangeFault} (h : Prepared.ofRange file range = .error (.range fault)) :
    Served path range file true [] (.error (.failure (.range fault)))
  | refused {p : Prepared} {f : Failure} {uses : List LinkUse} {result : Except Halt LinkStream}
    (h : Prepared.ofRange file range = .ok p) (hrest : Renewed path range file uses result) :
    Served path range file true (.media p (.error f) :: uses) result
  | opened {p : Prepared} {response : Http.Response} (h : Prepared.ofRange file range = .ok p) :
    Served path range file true [.media p (.ok response)] (.ok (.ofResponse file p response))

/-- What the caller gets, after some uses: a stream over what the last of them brought, for a file
    that a record tells of; or a failure that is the program's own, that says that there is no live
    link, or that says that the range selects nothing of the recorded file. -/
def Given (path : String) (range : Option RangeRequest) (uses : List LinkUse)
    (r : Except Halt LinkStream × World) : Prop :=
  match r.1 with
  | .ok stream => ∃ p response, uses.getLast? = some (.media p (.ok response)) ∧
      Prepared.ofRange stream.file range = .ok p ∧
      stream = .ofResponse stream.file p response ∧ r.2.Holds path stream.file
  | .error (.failure f) => f.isFatal = true ∨ f = .noLiveLink path ∨
      (∃ fault, f = .range fault) ∧ ∃ file, r.2.Holds path file ∧
        ∀ i, ¬ RangeRequest.Selects range file.size i
  | .error .abandoned => False

variable {relay : Relay} {path : String} {key : Key} {range : Option RangeRequest}
variable {file : CachedFile} {w w' : World}

theorem Given.append {uses : List LinkUse} {r : Except Halt LinkStream × World}
    (h : Given path range uses r) (before : List LinkUse) :
    Given path range (before ++ uses) r := by
  obtain ⟨result, w⟩ := r
  cases result with
  | error halt =>
    cases halt with
    | failure f => exact h
    | abandoned => exact h
  | ok stream =>
    obtain ⟨p, response, hlast, hrest⟩ := h
    refine ⟨p, response, ?_, hrest⟩
    rw [List.getLast?_append, hlast, Option.some_or]

theorem Performs.append {before after : List LinkUse} {mid : World}
    (h : relay.Performs path key w before mid) (h' : relay.Performs path key mid after w') :
    relay.Performs path key w (before ++ after) w' := by
  induction before generalizing w with
  | nil =>
    cases h
    exact h'
  | cons use before ih =>
    obtain ⟨next, hdone, hrest⟩ := h
    exact ⟨next, hdone, ih hrest⟩

/-- The orders in which links are used after a probe that found the link alive, or dead. -/
def shapes : Bool → List (List UseKind)
  | true => [[], [.media], [.media, .refresh], [.media, .refresh, .media]]
  | false => [[.refresh], [.refresh, .media]]

theorem Renewed.kinds {dead : CachedFile} {uses : List LinkUse} {result : Except Halt LinkStream}
    (h : Renewed path range dead uses result) : uses.map LinkUse.kind ∈ shapes false := by
  cases h <;> simp [shapes, LinkUse.kind]

theorem Served.kinds {alive : Bool} {uses : List LinkUse} {result : Except Halt LinkStream}
    (h : Served path range file alive uses result) : uses.map LinkUse.kind ∈ shapes alive := by
  cases h with
  | dead h => exact h.kinds
  | unsatisfiable | opened => simp [shapes, LinkUse.kind]
  | refused hp hrest =>
    have hkinds := hrest.kinds
    simp only [shapes, List.mem_cons, List.not_mem_nil, or_false, List.map_cons] at hkinds ⊢
    rcases hkinds with hkinds | hkinds <;> rw [hkinds] <;> simp [LinkUse.kind]

theorem talk_run {α : Type} (t : Http.OnWire α) (w : World) : Session.talk t w =
    (.ok (t.run w.wire).1, { w with wire := (t.run w.wire).2 }) := rfl

theorem talk_bind {α β : Type} {t : Http.OnWire α} {a : α} {wire : Http.Wire}
    (h : t.run w.wire = (.ok a, wire)) (f : α → Http.OnWire β) :
    Session.talk (t >>= f) w = Session.talk (f a) { w with wire } := by
  rw [talk_run, talk_run, Http.OnWire.bind_of_ok h]

theorem statusOf_run (d : Http.Draft) (wire : Http.Wire) :
    ∃ status wire', (statusOf d).run wire = (.ok status, wire') := by
  simp only [statusOf, ExceptT.run, ExceptT.mk]
  split <;> exact ⟨_, _, rfl⟩

theorem probe (relay : Relay) (path : String) (key : Key) (link : String) (w : World) :
    ∃ uses alive wire,
      Session.talk (isLinkAlive link) w = (.ok (.ok alive), { w with wire }) ∧
      Probe link uses alive ∧ relay.Performs path key w uses { w with wire } := by
  obtain ⟨status, wire, hhead⟩ :=
    statusOf_run { Http.Draft.get link with method := .head } w.wire
  obtain ⟨first, wire', hfirst⟩ :=
    statusOf_run { Http.Draft.get link with range := some "bytes=0-0" } wire
  have hheadDone : relay.Does path key (.head link status) w { w with wire } := by
    rw [Does, talk_run, hhead]
  rw [isLinkAlive, talk_bind hhead]
  by_cases hrefused : status = some 405 ∨ status = some 501
  · have hfirstDone : relay.Does path key (.firstByte link first) { w with wire }
        { w with wire := wire' } := by
      rw [Does, talk_run, hfirst]
    rw [if_pos hrefused, talk_bind hfirst]
    exact ⟨_, _, wire', rfl, .firstByte hrefused, _, hheadDone, _, hfirstDone, rfl⟩
  · rw [if_neg hrefused]
    exact ⟨_, _, wire, rfl, .head hrefused, _, hheadDone, rfl⟩

theorem openOver_of_error {f : Failure} (relay : Relay) (path : String) (key : Key)
    (h : Prepared.ofRange file range = .error f) (w : World) :
    relay.openOver path key range file w = (.error (.failure f), w) := by
  rw [openOver, h]
  exact Session.bind_of_error rfl _

theorem openOver_of_ok {p : Prepared} (relay : Relay) (path : String) (key : Key)
    (h : Prepared.ofRange file range = .ok p) (w : World) :
    ∃ answer wire, relay.Does path key (.media p answer) w { w with wire } ∧
      relay.openOver path key range file w =
        (.ok (answer.map (LinkStream.ofResponse file p)), { w with wire }) := by
  refine ⟨(p.send.run w.wire).1, (p.send.run w.wire).2, rfl, ?_⟩
  have hprepared : (Session.ofExcept (Prepared.ofRange file range)) w = (.ok p, w) := by
    rw [h]
    rfl
  have hsent : Session.talk p.send w = (.ok (p.send.run w.wire).1,
      { w with wire := (p.send.run w.wire).2 }) := rfl
  rw [openOver, Session.bind_of_ok hprepared, LinkStream.start, ExceptT.run_bind]
  refine (Session.bind_of_ok hsent _).trans ?_
  cases (p.send.run w.wire).1 with
  | ok response => rfl
  | error f => rfl

theorem renewed (relay : Relay) (path : String) (key : Key) (range : Option RangeRequest)
    (h : w.Timely) (dead : CachedFile) :
    ∃ uses r, (do relay.openFresh path key range (← relay.replaceLink path key dead)) w = r ∧
      Renewed path range dead uses r.1 ∧ relay.Performs path key w uses r.2 ∧
      Given path range uses r := by
  obtain ⟨htimely, hanswer⟩ := relay.replaceLink_serves path key dead w h trivial
  cases hreplace : relay.replaceLink path key dead w with
  | mk answer w' =>
    rw [hreplace] at htimely hanswer
    cases answer with
    | error halt =>
      refine ⟨_, _, Session.bind_of_error hreplace _, .lost, ⟨w', hreplace, rfl⟩, ?_⟩
      cases halt with
      | failure f => exact hanswer.imp_right .inl
      | abandoned => exact hanswer
    | ok fresh =>
      rw [Session.bind_of_ok hreplace, openFresh]
      rcases Prepared.ofRange_cases fresh range with ⟨p, hp, -⟩ | ⟨fault, hp, -, hnone⟩
      · obtain ⟨sent, wire, hdone, hopen⟩ := openOver_of_ok relay path key hp w'
        rw [Session.bind_of_ok hopen]
        cases sent with
        | ok response =>
          exact ⟨_, _, rfl, .opened hp, ⟨w', hreplace, _, hdone, rfl⟩,
            p, response, rfl, hp, rfl, hanswer⟩
        | error f =>
          exact ⟨_, _, rfl, .refused hp, ⟨w', hreplace, _, hdone, rfl⟩, .inr (.inl rfl)⟩
      · rw [Session.bind_of_error (openOver_of_error relay path key hp w')]
        exact ⟨_, _, rfl, .unsatisfiable hp, ⟨w', hreplace, rfl⟩,
          .inr (.inr ⟨⟨fault, rfl⟩, fresh, hanswer, hnone⟩)⟩

theorem served_alive (relay : Relay) (path : String) (key : Key) (range : Option RangeRequest)
    (h : w.Timely) (hfile : w.Holds path file) :
    ∃ uses r, (do
        match ← relay.openOver path key range file with
        | .ok stream => return stream
        | .error _ => relay.openFresh path key range (← relay.replaceLink path key file)) w = r ∧
      Served path range file true uses r.1 ∧ relay.Performs path key w uses r.2 ∧
      Given path range uses r := by
  rcases Prepared.ofRange_cases file range with ⟨p, hp, -⟩ | ⟨fault, hp, -, hnone⟩
  · obtain ⟨sent, wire, hdone, hopen⟩ := openOver_of_ok relay path key hp w
    rw [Session.bind_of_ok hopen]
    cases sent with
    | ok response =>
      exact ⟨_, _, rfl, .opened hp, ⟨_, hdone, rfl⟩, p, response, rfl, hp, rfl, hfile⟩
    | error f =>
      -- why the link was refused does not matter: it is replaced as a dead one would be
      have htimely : ({ w with wire } : World).Timely :=
        ⟨⟨h.limiter, h.patient⟩, h.calendar, h.files⟩
      obtain ⟨uses, r, hr, hrest, hperformed, hgiven⟩ :=
        renewed relay path key range htimely file
      exact ⟨_, r, hr, .refused hp hrest, ⟨_, hdone, hperformed⟩, hgiven.append [_]⟩
  · rw [Session.bind_of_error (openOver_of_error relay path key hp w)]
    exact ⟨_, _, rfl, .unsatisfiable hp, rfl, .inr (.inr ⟨⟨fault, rfl⟩, file, hfile, hnone⟩)⟩

theorem Served.unsatisfiable_eq_nil {uses : List LinkUse} {result : Except Halt LinkStream}
    (h : Served path range file true uses result) (hrange : range.isSome = true)
    (hnone : ∀ i, ¬ RangeRequest.Selects range file.size i) : uses = [] := by
  have hprepared (p : Prepared) : Prepared.ofRange file range ≠ .ok p := by
    intro hp
    rcases Prepared.ofRange_cases file range with ⟨-, -, hselects⟩ | ⟨fault, herror, -⟩
    · obtain ⟨request, hrequest⟩ := Option.isSome_iff_exists.1 hrange
      obtain ⟨i, hi⟩ := hselects request hrequest
      exact hnone i hi
    · rw [hp] at herror
      cases herror
  cases h with
  | unsatisfiable => rfl
  | refused hp => exact absurd hp (hprepared _)
  | opened hp => exact absurd hp (hprepared _)

/-- How a stream is opened for a file: a probe, what followed it, and what came of it. -/
structure Opening (relay : Relay) (path : String) (key : Key) (range : Option RangeRequest)
    (file : CachedFile) (w : World) (probe rest : List LinkUse) (alive : Bool)
    (r : Except Halt LinkStream × World) : Prop where
  performed : relay.Performs path key w (probe ++ rest) r.2
  probed : Probe file.link probe alive
  served : Served path range file alive rest r.1
  order : rest.map LinkUse.kind ∈ shapes alive
  unsatisfiable (halive : alive = true) (hrange : range.isSome = true)
    (hnone : ∀ i, ¬ RangeRequest.Selects range file.size i) : rest = []
  given : Given path range (probe ++ rest) r

theorem opening (relay : Relay) (path : String) (key : Key) (range : Option RangeRequest)
    (h : w.Timely) (hfile : w.Holds path file) :
    ∃ probe rest alive, relay.Opening path key range file w probe rest alive ((do
      match ← Session.talk (isLinkAlive file.link) with
      | .ok true =>
        match ← relay.openOver path key range file with
        | .ok stream => return stream
        | .error _ => relay.openFresh path key range (← relay.replaceLink path key file)
      | _ => relay.openFresh path key range (← relay.replaceLink path key file)) w) := by
  obtain ⟨uses, alive, wire, htalk, hprobe, hprobed⟩ := probe relay path key file.link w
  have htimely : ({ w with wire } : World).Timely := ⟨⟨h.limiter, h.patient⟩, h.calendar, h.files⟩
  rw [Session.bind_of_ok htalk]
  cases alive with
  | true =>
    obtain ⟨rest, r, rfl, hserved, hrest, hgiven⟩ :=
      served_alive relay path key range htimely hfile
    exact ⟨uses, rest, true, hprobed.append hrest, hprobe, hserved, hserved.kinds,
      fun _ => hserved.unsatisfiable_eq_nil, hgiven.append uses⟩
  | false =>
    obtain ⟨rest, r, rfl, hrenewed, hrest, hgiven⟩ :=
      renewed relay path key range htimely file
    exact ⟨uses, rest, false, hprobed.append hrest, hprobe, .dead hrenewed, hrenewed.kinds, nofun,
      hgiven.append uses⟩

end Relay

/-- A stream is opened over a file's link with one probe, at most one refresh, and at most one
    media request before and after it. Only a range that selects nothing, a failure of the program
    itself and the lack of a live link reach the caller. -/
theorem open_stream_refreshes_once (relay : Relay) (path : String) (key : Key)
    (range : Option RangeRequest) {w : World} (h : w.Timely) :
    match relay.fileLink path key w with
    | (.ok file, found) => ∃ probe rest alive,
        relay.Opening path key range file found probe rest alive
          (relay.openStream path key range w)
    | (.error halt, found) => relay.openStream path key range w = (.error halt, found) ∧
        ∃ f, halt = .failure f ∧ (f.isFatal = true ∨ f = .noLiveLink path) := by
  obtain ⟨htimely, hanswer⟩ := relay.fileLink_serves path key (fun _ => True) w h trivial
  cases hlink : relay.fileLink path key w with
  | mk answer found =>
    rw [hlink] at htimely hanswer
    cases answer with
    | ok file =>
      rw [Relay.openStream, Session.bind_of_ok hlink]
      exact Relay.opening relay path key range htimely hanswer
    | error halt =>
      refine ⟨Session.bind_of_error hlink _, ?_⟩
      cases halt with
      | failure f => exact ⟨f, rfl, hanswer⟩
      | abandoned => exact hanswer.elim

/-- A link that is alive but serves nothing is refreshed, and the fresh one serves the file. -/
theorem open_stream_refreshes_once_of_refused :
    let known : Record := ⟨.premiumize, .cached, 0, some "http://x/a", some 3, none, some "film", .empty⟩
    let holder : Script :=
      { provider := .premiumize, kind := .torrent, answers := [], fallback := .ok true,
        listings := [], files := .ok [], link := .ok (some "http://x/b"), delayMs := 0,
        asked := (0, 0, 0) }
    let store : Store := ⟨⟨Dictionary.empty.insert "/film" [known], none⟩, ⟨5, 5, 5, 5⟩⟩
    let reply (status : Nat) (body : Bytes) : Option Http.Reply := some ⟨status, [], body, .close⟩
    let wire : Http.Wire := ⟨[reply 200 [], reply 403 [], reply 200 [1, 2, 3]], [], .common⟩
    let w := World.start [.scripted holder] (.ofStandard .standard) store wire (fun _ => 7)
    let relay : Relay := ⟨⟨0, 0, 0⟩⟩
    let key : Key := .torrent "hash" "magnet"
    let film : CachedFile := ⟨"film", 3, none, "http://x/a", .premiumize, 0, .empty⟩
    ∃ probe rest alive, relay.Opening "/film" key none film w probe rest alive
      (relay.openStream "/film" key none w) := by
  intro known holder store reply wire w relay key film
  have hrest : w.AtRest := ⟨Limiter.atRest_ofStandard .standard, rfl⟩
  have hfiles : store.backend.files.Timely :=
    Catalog.Every.insert nofun (by simp [known])
  have htimely : w.Timely := ⟨hrest, fun _ => show (0 : Int) ≤ 7 by decide, hfiles⟩
  exact open_stream_refreshes_once relay "/film" key none htimely

end LinkRelay
