import LinkRelay.Proofs.Relay.Content
import LinkRelay.Proofs.Relay.Opening
import LinkRelay.Proofs.Resolve.Attempts
set_option autoImplicit false

/-!
# Refreshing a dead link

A refresh asks the dead file's provider for a link, and records what it heard. With a link the
record tells of the dead file under that link; without one it keeps what is known about the file,
and the outcome. `Relay.Refreshed` lists the ways in which a refresh ends.
-/

namespace LinkRelay

theorem Session.refreshCall_eq (policy : RetryPolicy) (key : Key) (dead : CachedFile) {w : World}
    (h : w.AtRest) {client : Nat} (hclient : w.clientOf? key dead.provider = some client) :
    policy.refreshFile key dead w =
      (((policy.refreshCall key dead client).exec w).1.mapError .failure,
        ((policy.refreshCall key dead client).exec w).2) :=
  PolicyCall.session_eq policy (.refresh key dead) h hclient

namespace RetryPolicy

/-- The policy call for a fresh link gets one from the client: the circuit is closed, and what the
    last attempt hears is the link. -/
structure Yields (policy : RetryPolicy) (key : Key) (dead : CachedFile) (client : Nat) (w : World)
    (link : String) : Prop where
  closed : w.breaker.isOpenAt dead.provider.name w.clock = false
  heard : ∃ last,
    Last policy.retries (fun k => (policy.trial dead.provider (Attempt.refresh client key dead)
      (w.checked dead.provider) k).1) last ∧
    (Attempt.heard client dead.provider (.link key dead) (policy.begun dead.provider
      (Attempt.refresh client key dead) (w.checked dead.provider) last)).1 = .ok (some link)

inductive LinkAnswer (policy : RetryPolicy) (key : Key) (dead : CachedFile) (client : Nat)
    (w : World) : CallResult → Prop
  | link {link : String} (h : policy.Yields key dead client w link) (now : Time) :
    LinkAnswer policy key dead client w (.ok (.cached [{ dead with link, lastChecked := now }]))
  | without {outcome : Outcome} (h : ∀ link, ¬ policy.Yields key dead client w link)
    (houtcome : ∀ files, outcome ≠ .cached files) :
    LinkAnswer policy key dead client w (.ok outcome)
  | fatal {f : Failure} (h : ∀ link, ¬ policy.Yields key dead client w link)
    (hfatal : f.isFatal = true) : LinkAnswer policy key dead client w (.error f)

theorem linkAnswer (policy : RetryPolicy) (key : Key) (dead : CachedFile) (client : Nat)
    (w : World) :
    policy.LinkAnswer key dead client w ((policy.refreshCall key dead client).exec w).1 := by
  cases hopen : w.breaker.isOpenAt dead.provider.name w.clock with
  | true =>
    rw [refreshCall, call_of_open hopen]
    refine .without (fun link hyields => ?_) nofun
    rw [hyields.closed] at hopen
    cases hopen
  | false =>
    obtain ⟨last, hcalled⟩ :=
      policy.call_of_closed (PolicyCall.calm_attempt client (.refresh key dead)) hopen
    change policy.Called dead.provider (Attempt.refresh client key dead) w last
      ((policy.refreshCall key dead client).exec w) at hcalled
    have hunique {link : String} (h : policy.Yields key dead client w link) :
        (Attempt.heard client dead.provider (.link key dead) (policy.begun dead.provider
          (Attempt.refresh client key dead) (w.checked dead.provider) last)).1 =
            .ok (some link) := by
      obtain ⟨last', hlast', hheard⟩ := h.heard
      rw [hcalled.isLast.unique hlast']
      exact hheard
    have hanswered := hcalled.answered
    rw [trial_eq_exec, Attempt.refresh_exec] at hanswered
    rcases hheard : Attempt.heard client dead.provider (.link key dead) (policy.begun dead.provider
      (Attempt.refresh client key dead) (w.checked dead.provider) last) with ⟨f | _ | link, w'⟩ <;>
      rw [hheard] at hanswered hunique <;> rw [hanswered]
    · have hno (link : String) (h : policy.Yields key dead client w link) : False :=
        nomatch hunique h
      cases hfatal : f.isFatal with
      | true => exact (answer_of_fatal hfatal).symm ▸ .fatal hno hfatal
      | false => exact (answer_of_not_fatal hfatal).symm ▸ .without hno nofun
    · exact .without (fun _ h => nomatch hunique h) nofun
    · exact .link ⟨hopen, last, hcalled.isLast, congrArg Prod.fst hheard⟩ w'.wall

end RetryPolicy

namespace Store

def record? (s : Store) (path : String) (p : Provider) : Option Record :=
  (s.records path).find? fun r => r.provider = p

/-- All that may differ between two stores is a provider's record on a path, which has not been
    checked longer ago. -/
structure DiffersAt (path : String) (p : Provider) (s s' : Store) : Prop where
  paths {other : String} (h : other ≠ path) : s'.records other = s.records other
  providers : ((s'.records path).filter fun r => r.provider ≠ p) =
    (s.records path).filter fun r => r.provider ≠ p
  checked {old : Record} (h : s.record? path p = some old) :
    ∃ new, s'.record? path p = some new ∧ old.lastChecked ≤ new.lastChecked

theorem DiffersAt.of_records {path : String} {p : Provider} {s s' : Store}
    (h : ∀ other, s'.records other = s.records other) : DiffersAt path p s s' where
  paths _ := h _
  providers := by rw [h]
  checked {old} hold := by
    rw [record?, ← h] at hold
    exact ⟨old, hold, le_refl _⟩

theorem filter_replace (record : Record) (records : List Record) :
    ((replace record records).filter fun r => r.provider ≠ record.provider) =
      records.filter fun r => r.provider ≠ record.provider := by
  induction records with
  | nil => simp [replace]
  | cons r rest ih =>
    rw [replace]
    by_cases hr : r.provider = record.provider
    · rw [if_pos hr, List.filter_cons, List.filter_cons]
      simp [hr]
    · rw [if_neg hr, List.filter_cons, List.filter_cons, ih]

theorem nextRecord_eq (s : Store) (path : String) (p : Provider) (outcome : FileOutcome)
    (now : Time) : nextRecord (s.records path) p outcome now =
      .ofOutcome p outcome (((s.record? path p).map fun r => max r.lastChecked now).getD now)
        (s.record? path p) :=
  rfl

theorem toFile?_nextRecord (records : List Record) (file : CachedFile) (now : Time) :
    ∃ checked, (nextRecord records file.provider (.cached file) now).toFile? =
      some { file with lastChecked := checked } :=
  ⟨_, rfl⟩

theorem upsertAt_cases (s : Store) (path : String) (p : Provider) (outcome : FileOutcome)
    (now : Time) :
    (∃ s', s.upsertAt path p outcome now =
        (.ok (nextRecord (s.records path) p outcome now), s') ∧
      s'.record? path p = some (nextRecord (s.records path) p outcome now) ∧
      DiffersAt path p s s') ∨
    ∃ f s', s.upsertAt path p outcome now = (.error f, s') ∧
      ∀ other, s'.records other = s.records other := by
  have hprovider := nextRecord_provider (s.records path) p outcome now
  have hchecked (old : Record) (hold : s.record? path p = some old) :
      old.lastChecked ≤ (nextRecord (s.records path) p outcome now).lastChecked := by
    rw [nextRecord_eq, ofOutcome_lastChecked, hold]
    exact le_max_left _ _
  have hinsert (other : String) := Catalog.records_insert s.backend.files path other
    (replace (nextRecord (s.records path) p outcome now) (s.records path))
  have hpath := (hinsert path).trans (if_pos rfl)
  have hrecord : (replace (nextRecord (s.records path) p outcome now) (s.records path)).find?
      (fun r => r.provider = p) = some (nextRecord (s.records path) p outcome now) := by
    rw [find?_replace, if_pos hprovider]
  have hupserted := s.upserted path p outcome now
  generalize s.upsertAt path p outcome now = result at hupserted
  cases hupserted with
  | recorded =>
    refine .inl ⟨_, rfl, (congrArg _ hpath).trans hrecord, fun h => (hinsert _).trans (if_neg h),
      (congrArg _ hpath).trans ?_,
      fun {old} hold => ⟨_, (congrArg _ hpath).trans hrecord, hchecked old hold⟩⟩
    have hothers := filter_replace (nextRecord (s.records path) p outcome now) (s.records path)
    rwa [hprovider] at hothers
  | refused => exact .inr ⟨_, _, rfl, fun _ => rfl⟩

end Store

/-- What is known of a file whatever the provider says: a record and the one it replaced agree. -/
structure Record.Remembers (r : Record) (previous : Option Record) : Prop where
  size : r.size = previous.bind (·.size)
  mimeType : r.mimeType = previous.bind (·.mimeType)
  remotePath : r.remotePath = previous.bind (·.remotePath)
  params : r.params = (previous.map (·.params)).getD .empty

theorem Record.remembers_ofOutcome (p : Provider) {outcome : FileOutcome}
    (h : ∀ file, outcome ≠ .cached file) (now : Time) (previous : Option Record) :
    (Record.ofOutcome p outcome now previous).Remembers previous ∧
      (Record.ofOutcome p outcome now previous).link = none := by
  cases outcome with
  | cached file => exact absurd rfl (h file)
  | missing => exact ⟨⟨rfl, rfl, rfl, rfl⟩, rfl⟩
  | failed trouble => exact ⟨⟨rfl, rfl, rfl, rfl⟩, rfl⟩

theorem FileOutcome.state_ne_cached {outcome : FileOutcome} (h : ∀ file, outcome ≠ .cached file) :
    outcome.state ≠ .cached := by
  cases outcome with
  | cached file => exact absurd rfl (h file)
  | missing | failed => nofun

theorem Outcome.forFile_ne_cached {outcome : Outcome} (h : ∀ files, outcome ≠ .cached files)
    (path : String) (file : CachedFile) : outcome.forFile path ≠ .cached file := by
  cases outcome with
  | cached files => exact absurd rfl (h files)
  | notCached | failed => nofun

theorem CachedFile.forFile_relinked (dead : CachedFile) (link : String) (now : Time) :
    (Outcome.cached [{ dead with link, lastChecked := now }]).forFile dead.path =
      .cached { dead with link, lastChecked := now } := by
  simp [Outcome.forFile]

namespace Relay

section

variable (relay : Relay) (path : String) (key : Key) (dead : CachedFile) (client : Nat) (w : World)

def Writes : Prop :=
  ∀ outcome v, relay.policy.refreshFile key dead w = (.ok outcome, v) →
    ∃ record v', Session.upsert path dead.provider (outcome.forFile dead.path) v = (.ok record, v')

/-- How a refresh ends, and what it records. -/
inductive Refreshed : Except Halt CachedFile × World → Prop
  | fresh {link : String} {fresh : CachedFile} {record : Record} {w' : World}
    (h : relay.policy.Yields key dead client w link)
    (hfresh : fresh = { dead with link, lastChecked := fresh.lastChecked })
    (hsame : fresh.same dead = true) (hwrites : relay.Writes path key dead w)
    (hrecord : w'.store.record? path dead.provider = some record)
    (hstate : record.state = .cached) (hfile : record.toFile? = some fresh) :
    Refreshed (.ok fresh, w')
  | lost {outcome : Outcome} {record : Record} {v w' : World}
    (h : ∀ link, ¬ relay.policy.Yields key dead client w link)
    (hcall : relay.policy.refreshFile key dead w = (.ok outcome, v))
    (hrecord : w'.store.record? path dead.provider = some record)
    (hstate : record.state = (outcome.forFile dead.path).state) (huncached : record.state ≠ .cached)
    (hlink : record.link = none)
    (hremembers : record.Remembers (w.store.record? path dead.provider)) :
    Refreshed (.error (.failure (.noLiveLink path)), w')
  | fatal {f : Failure} {w' : World} (h : ∀ link, ¬ relay.policy.Yields key dead client w link)
    (hcall : relay.policy.refreshFile key dead w = (.error (.failure f), w'))
    (hfatal : f.isFatal = true) (hstore : w'.store = w.store) :
    Refreshed (.error (.failure f), w')
  | unwritten {outcome : Outcome} {f : Failure} {v w' : World}
    (hcall : relay.policy.refreshFile key dead w = (.ok outcome, v))
    (hwrite : Session.upsert path dead.provider (outcome.forFile dead.path) v =
      (.error (.failure f), w'))
    (hkept : ∀ other, w'.store.records other = w.store.records other) :
    Refreshed (.error (.failure f), w')

end

variable {relay : Relay} {path : String} {key : Key} {dead : CachedFile} {client : Nat}
variable {w : World}

def conclude (path : String) (dead : CachedFile) (outcome : FileOutcome) (updated : Record) :
    Session CachedFile :=
  match outcome, updated.toFile? with
  | .cached _, some fresh => do
    Session.count (.linkRefreshed dead.provider true)
    return fresh
  | _, _ => do
    Session.count (.linkRefreshed dead.provider false)
    Session.fail (.noLiveLink path)

theorem refreshLink_of_outcome {outcome : Outcome} {v : World}
    (hcall : relay.policy.refreshFile key dead w = (.ok outcome, v)) :
    relay.refreshLink path key dead w =
      (Session.upsert path dead.provider (outcome.forFile dead.path) >>=
        conclude path dead (outcome.forFile dead.path)) v :=
  Session.bind_of_ok hcall _

theorem conclude_lost (path : String) (dead : CachedFile) {outcome : FileOutcome}
    (h : ∀ file, outcome ≠ .cached file) (updated : Record) (v : World) :
    conclude path dead outcome updated v =
      (.error (.failure (.noLiveLink path)), v.count (.linkRefreshed dead.provider false)) := by
  cases outcome with
  | cached file => exact absurd rfl (h file)
  | missing | failed => rfl

theorem conclude_fresh (path : String) (dead : CachedFile) (file : CachedFile) {updated : Record}
    {fresh : CachedFile} (h : updated.toFile? = some fresh) (v : World) :
    conclude path dead (.cached file) updated v =
      (.ok fresh, v.count (.linkRefreshed dead.provider true)) := by
  simp only [conclude, h]
  rfl

theorem upsert_cases (p : Provider) (outcome : FileOutcome) {v : World}
    (hstore : v.store = w.store) :
    (∃ v', Session.upsert path p outcome v =
        (.ok (Store.nextRecord (w.store.records path) p outcome v.wall), v') ∧
      v'.store.record? path p =
        some (Store.nextRecord (w.store.records path) p outcome v.wall) ∧
      Store.DiffersAt path p w.store v'.store) ∨
    ∃ f v', Session.upsert path p outcome v = (.error (.failure f), v') ∧
      ∀ other, v'.store.records other = w.store.records other := by
  rw [Session.upsert_eq, hstore]
  rcases w.store.upsertAt_cases path p outcome v.wall with
    ⟨s', hsaved, hrecord, hdiffers⟩ | ⟨f, s', hrefused, hkept⟩
  · rw [hsaved]
    exact .inl ⟨_, rfl, hrecord, hdiffers⟩
  · rw [hrefused]
    exact .inr ⟨f, _, rfl, hkept⟩

theorem refreshed (relay : Relay) (path : String) (key : Key) (h : w.AtRest)
    (hclient : w.clientOf? key dead.provider = some client) :
    relay.Refreshed path key dead client w (relay.refreshLink path key dead w) ∧
      Store.DiffersAt path dead.provider w.store (relay.refreshLink path key dead w).2.store := by
  have hcall := Session.refreshCall_eq relay.policy key dead h hclient
  have hanswer := relay.policy.linkAnswer key dead client w
  have hstore := (Plan.onward_exec (relay.policy.refreshCall key dead client) w).store
  generalize (relay.policy.refreshCall key dead client).exec w = r at hcall hanswer hstore
  obtain ⟨answer, v⟩ := r
  change v.store = w.store at hstore
  cases hanswer with
  | fatal hno hfatal =>
    have hrun : relay.refreshLink path key dead w = (.error (.failure _), v) :=
      Session.bind_of_error hcall _
    rw [hrun]
    exact ⟨.fatal hno hcall hfatal hstore, .of_records fun _ => by rw [hstore]⟩
  | @without outcome hno houtcome =>
    have hforFile := Outcome.forFile_ne_cached houtcome dead.path
    rw [refreshLink_of_outcome hcall]
    rcases upsert_cases dead.provider _ hstore with
      ⟨v', hupsert, hrecord, hdiffers⟩ | ⟨f, v', hupsert, hkept⟩
    · obtain ⟨hremembers, hlink⟩ := Record.remembers_ofOutcome dead.provider hforFile _
        (w.store.record? path dead.provider)
      have hstate := VirtualFile.ofOutcome_state dead.provider (outcome.forFile dead.path)
      rw [Session.bind_of_ok hupsert, conclude_lost path dead hforFile]
      refine ⟨.lost hno hcall hrecord (hstate ..) ?_ hlink hremembers, hdiffers⟩
      rw [Store.nextRecord_eq, hstate]
      exact FileOutcome.state_ne_cached hforFile
    · rw [Session.bind_of_error hupsert]
      exact ⟨.unwritten hcall hupsert hkept, .of_records hkept⟩
  | @link link hyields now =>
    have hforFile := dead.forFile_relinked link now
    rw [refreshLink_of_outcome hcall]
    rcases upsert_cases dead.provider _ hstore with
      ⟨v', hupsert, hrecord, hdiffers⟩ | ⟨f, v', hupsert, hkept⟩
    · have hwrites : relay.Writes path key dead w := by
        intro outcome u hu
        rw [hcall] at hu
        cases hu
        exact ⟨_, v', hupsert⟩
      obtain ⟨checked, hfile⟩ := Store.toFile?_nextRecord (w.store.records path)
        { dead with link, lastChecked := now } v.wall
      have hsame : CachedFile.same { dead with link, lastChecked := checked } dead = true := by
        simp [CachedFile.same]
      rw [Session.bind_of_ok hupsert]
      rw [hforFile] at hrecord ⊢
      rw [conclude_fresh path dead _ hfile]
      exact ⟨.fresh hyields rfl hsame hwrites hrecord rfl hfile, hdiffers⟩
    · rw [Session.bind_of_error hupsert]
      exact ⟨.unwritten hcall hupsert hkept, .of_records hkept⟩

theorem Refreshed.ok_iff {r : Except Halt CachedFile × World}
    (h : relay.Refreshed path key dead client w r) :
    (∃ fresh, r.1 = .ok fresh) ↔
      (∃ link, relay.policy.Yields key dead client w link) ∧ relay.Writes path key dead w := by
  cases h with
  | fresh hyields _ _ hwrites => exact iff_of_true ⟨_, rfl⟩ ⟨⟨_, hyields⟩, hwrites⟩
  | lost hno | fatal hno => exact iff_of_false nofun fun h => h.1.elim hno
  | unwritten hcall hwrite =>
    refine iff_of_false nofun fun h => ?_
    obtain ⟨record, v', hwritten⟩ := h.2 _ _ hcall
    rw [hwrite] at hwritten
    cases hwritten

end Relay

/-- A refresh over a client for the dead file's provider brings a fresh file if and only if the
    client yields a link and the outcome can be written. In every case `Relay.Refreshed` says what
    is returned and recorded, and nothing else in the store changes. -/
theorem refresh_link_records_what_it_hears (relay : Relay) (path : String) (key : Key)
    (dead : CachedFile) {w : World} (h : w.AtRest) {client : Nat}
    (hclient : w.clientOf? key dead.provider = some client) :
    ((∃ fresh, (relay.refreshLink path key dead w).1 = .ok fresh) ↔
      (∃ link, relay.policy.Yields key dead client w link) ∧ relay.Writes path key dead w) ∧
    relay.Refreshed path key dead client w (relay.refreshLink path key dead w) ∧
    Store.DiffersAt path dead.provider w.store (relay.refreshLink path key dead w).2.store := by
  obtain ⟨hrefreshed, hdiffers⟩ := relay.refreshed path key h hclient
  exact ⟨hrefreshed.ok_iff, hrefreshed, hdiffers⟩

/-- A film whose record is one of two gets a fresh link; later its provider has no link any more. -/
theorem refresh_link_records_what_it_hears_of_film :
    let film : CachedFile :=
      ⟨"film.mkv", 6, some "video/x-matroska", "http://host/old", .premiumize, 0, .empty⟩
    let script (link : Option String) : Script :=
      { provider := .premiumize, kind := .torrent, answers := [], fallback := .ok true,
        listings := [], files := .ok [], link := .ok link, delayMs := 3, asked := (0, 0, 0) }
    let records : List Record :=
      [⟨.easynews, .missing, 8, none, some 7, none, some "release.mkv", .empty⟩,
        ⟨.premiumize, .cached, 9, some film.link, some 6, film.mimeType, some film.path, .empty⟩]
    let store : Store := ⟨⟨Dictionary.empty.insert "/film" records, none⟩, ⟨5, 5, 5, 5⟩⟩
    let world (link : Option String) : World :=
      World.start [.scripted (script link)] (.ofStandard .standard) store ⟨[], [], .common⟩
        (fun _ => 20)
    let relay : Relay := ⟨⟨0, 0, 0⟩⟩
    let key : Key := .torrent "hash" "magnet"
    let after (link : Option String) := relay.refreshLink "/film" key film (world link)
    (∀ link, (world link).clientOf? key film.provider = some 0 ∧
      relay.Refreshed "/film" key film 0 (world link) (after link) ∧
      Store.DiffersAt "/film" film.provider store (after link).2.store) ∧
    (after (some "http://host/new")).1.toOption.map (·.link) = some "http://host/new" ∧
    (after none).1.toOption.isNone = true ∧
    ((after none).2.store.record? "/film" .premiumize).map
      (fun r => (r.state, r.link, r.size, r.remotePath)) =
        some (.missing, none, some 6, some "film.mkv") := by
  intro film script records store world relay key after
  refine ⟨fun link => ?_, by decide, by decide, by decide⟩
  have hrest : (world link).AtRest := ⟨Limiter.atRest_ofStandard .standard, rfl⟩
  have hclient : (world link).clientOf? key film.provider = some 0 := rfl
  exact ⟨hclient, (refresh_link_records_what_it_hears relay "/film" key film hrest hclient).2⟩

end LinkRelay
