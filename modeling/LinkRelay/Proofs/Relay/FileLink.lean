import LinkRelay.Proofs.Resolve.Calls
import LinkRelay.Proofs.Store.History
import LinkRelay.Relay
set_option autoImplicit false

/-!
# Finding a link

A record that has a file is served as it is. Without one, the records are walked in their order,
and a provider is asked about a record that is stale when the walk comes to it, until one has the
file. `Relay.Walk` says what a walk comes to, and what it leaves in the store.
-/

namespace LinkRelay

/-- Whether strictly more than its state's wait has passed since a record was checked. -/
def Record.IsStale (r : Record) (policy : Staleness) (now : Time) : Prop :=
  ∃ wait, policy.waitFor r.state = some wait ∧ r.lastChecked + Time.ofSeconds wait < now

theorem Staleness.isStale_iff (policy : Staleness) (r : Record) (now : Time) :
    policy.isStale r now = true ↔ r.IsStale policy now := by
  unfold isStale Record.IsStale
  cases policy.waitFor r.state with
  | none => simp
  | some wait =>
    have hmove (a b c : Int) : a < b - c ↔ c + a < b := by omega
    rw [decide_eq_true_eq, hmove]
    simp

def Record.told (r : Record) (outcome : FileOutcome) (now : Time) : Record :=
  .ofOutcome r.provider outcome (max r.lastChecked now) (some r)

namespace Store

variable {before rest : List Record} {r : Record}

theorem replace_of_nodup {record : Record}
    (h : ((before ++ r :: rest).map (·.provider)).Nodup) (hrecord : record.provider = r.provider) :
    replace record (before ++ r :: rest) = before ++ record :: rest := by
  induction before with
  | nil => rw [List.nil_append, replace, if_pos hrecord.symm, List.nil_append]
  | cons first before ih =>
    obtain ⟨hfirst, hrest⟩ := List.nodup_cons.1 h
    have hne : first.provider ≠ record.provider := by
      intro heq
      exact hfirst (List.mem_map.2 ⟨r, List.mem_append_right _ List.mem_cons_self,
        (heq.trans hrecord).symm⟩)
    rw [List.cons_append, replace, if_neg hne, ih hrest, List.cons_append]

theorem nextRecord_of_nodup
    (h : ((before ++ r :: rest).map (·.provider)).Nodup) (outcome : FileOutcome) (now : Time) :
    nextRecord (before ++ r :: rest) r.provider outcome now = r.told outcome now := by
  have hfind : (before ++ r :: rest).find? (fun other => other.provider = r.provider) = some r := by
    rw [List.find?_eq_some_iff_append]
    refine ⟨by simp, before, rest, rfl, fun other hother => ?_⟩
    rw [List.map_append, List.map_cons] at h
    have hne := List.disjoint_of_nodup_append h (List.mem_map_of_mem hother)
    have hother : other.provider ≠ r.provider :=
      fun heq => hne (by rw [heq]; exact List.mem_cons_self)
    simpa using hother
  rw [nextRecord, hfind]
  rfl

theorem upsertAt_of_nodup {s : Store} {path : String}
    (hrecords : s.records path = before ++ r :: rest)
    (hnodup : ((before ++ r :: rest).map (·.provider)).Nodup) (outcome : FileOutcome) (now : Time) :
    (∃ s', s.upsertAt path r.provider outcome now = (.ok (r.told outcome now), s') ∧
      s'.records path = before ++ r.told outcome now :: rest ∧
      ∀ other ≠ path, s'.records other = s.records other) ∨
    ∃ f s', s.upsertAt path r.provider outcome now = (.error f, s') ∧
      ∀ other, s'.records other = s.records other := by
  have htold : (r.told outcome now).provider = r.provider := ofOutcome_provider ..
  have hinsert (other : String) := Catalog.records_insert s.backend.files path other
    (before ++ r.told outcome now :: rest)
  have hrecord : nextRecord (s.records path) r.provider outcome now = r.told outcome now := by
    rw [hrecords, nextRecord_of_nodup hnodup]
  have hfiles : s.backend.files.apply (.upsert path r.provider outcome now) =
      s.backend.files.insert path (before ++ r.told outcome now :: rest) := by
    change s.backend.files.insert path (replace (nextRecord (s.records path) r.provider outcome now)
      (s.records path)) = _
    rw [hrecord, hrecords, replace_of_nodup hnodup htold]
  have hupserted := s.upserted path r.provider outcome now
  generalize s.upsertAt path r.provider outcome now = result at hupserted
  cases hupserted with
  | recorded =>
    rw [hrecord, hfiles]
    exact .inl ⟨_, rfl, (hinsert path).trans (if_pos rfl),
      fun other h => (hinsert other).trans (if_neg h)⟩
  | refused => exact .inr ⟨_, _, rfl, fun _ => rfl⟩

end Store

namespace Record

theorem toFile?_told (r : Record) (outcome : FileOutcome) (now : Time) :
    (r.told outcome now).toFile? = outcome.file?.map fun file =>
      { file with provider := r.provider, lastChecked := max r.lastChecked now } := by
  cases outcome <;> rfl

end Record

/-- What a walk comes to at a record: nobody is asked, or an answer is recorded that has no file
    or has it, or the walk fails. -/
inductive Verdict where
  | fresh
  | without (updated : Record)
  | found (updated : Record) (file : CachedFile)
  | failed (f : Failure)

namespace Verdict

def goesOn : Verdict → Bool
  | .fresh | .without _ => true
  | .found .. | .failed _ => false

def record (r : Record) : Verdict → Record
  | .fresh | .failed _ => r
  | .without updated | .found updated _ => updated

def next (rest : Session CachedFile) : Verdict → Session CachedFile
  | .fresh | .without _ => rest
  | .found _ file => pure file
  | .failed f => Session.fail f

end Verdict

structure Visit where
  record : Record
  verdict : Verdict
  after : World

namespace Relay

section Walk

variable (relay : Relay) (path : String) (key : Key) (remote : String)

/-- What a walk does at a record in some world. A record that is stale now is asked about once,
    and the answer is upserted. -/
inductive Visited (r : Record) (w : World) : Verdict → World → Prop
  | fresh (h : ¬ r.IsStale w.store.policy w.wall) : Visited r w .fresh w.readWall.2
  | without {outcome : Outcome} {mid after : World} (hstale : r.IsStale w.store.policy w.wall)
    (hask : relay.policy.resolveProvider key r.provider w.readWall.2 = (.ok outcome, mid))
    (hupsert : Session.upsert path r.provider (outcome.forFile remote) mid =
      (.ok (r.told (outcome.forFile remote) mid.wall), after))
    (hfile : (outcome.forFile remote).file? = none) :
    Visited r w (.without (r.told (outcome.forFile remote) mid.wall)) after
  | found {outcome : Outcome} {file : CachedFile} {mid after : World}
    (hstale : r.IsStale w.store.policy w.wall)
    (hask : relay.policy.resolveProvider key r.provider w.readWall.2 = (.ok outcome, mid))
    (hupsert : Session.upsert path r.provider (outcome.forFile remote) mid =
      (.ok (r.told (outcome.forFile remote) mid.wall), after))
    (hfile : (outcome.forFile remote).file? = some file) :
    Visited r w (.found (r.told (outcome.forFile remote) mid.wall)
      { file with provider := r.provider, lastChecked := max r.lastChecked mid.wall }) after
  | fatal {f : Failure} {after : World} (hstale : r.IsStale w.store.policy w.wall)
    (hask : relay.policy.resolveProvider key r.provider w.readWall.2 =
      (.error (.failure f), after))
    (hfatal : f.isFatal = true) : Visited r w (.failed f) after
  | unwritten {outcome : Outcome} {f : Failure} {mid after : World}
    (hstale : r.IsStale w.store.policy w.wall)
    (hask : relay.policy.resolveProvider key r.provider w.readWall.2 = (.ok outcome, mid))
    (hupsert : Session.upsert path r.provider (outcome.forFile remote) mid =
      (.error (.failure f), after)) : Visited r w (.failed f) after

/-- Visits one after another, each in the world that the one before it left. -/
def Visits : World → List Visit → World → Prop
  | w, [], w' => w' = w
  | w, v :: rest, w' => relay.Visited path key remote v.record w v.verdict v.after ∧
      Visits v.after rest w'

def answerAfter (visits : List Visit) : Except Halt CachedFile :=
  match visits.getLast?.map Visit.verdict with
  | some (.found _ file) => .ok file
  | some (.failed f) => .error (.failure f)
  | _ => .error (.failure (.noLiveLink path))

/-- A walk over the records that are left, when those before them have been walked over. -/
structure Walk (before rest : List Record) (w : World) (visits : List Visit)
    (r : Except Halt CachedFile × World) : Prop where
  steps : Visits relay path key remote w visits r.2
  order : visits.map (·.record) <+: rest
  onward : ∀ v ∈ visits.dropLast, v.verdict.goesOn = true
  whole : (∀ v ∈ visits, v.verdict.goesOn = true) → visits.map (·.record) = rest
  answer : r.1 = answerAfter path visits
  records : r.2.store.records path =
    before ++ visits.map (fun v => v.verdict.record v.record) ++ rest.drop visits.length
  others {other : String} (h : other ≠ path) :
    r.2.store.records other = w.store.records other

end Walk

variable {relay : Relay} {path : String} {key : Key} {remote : String}
variable {w : World} {before rest : List Record} {r : Record}

structure Left (path : String) (before rest : List Record) (r : Record) (w : World)
    (verdict : Verdict) (after : World) : Prop where
  atRest : after.AtRest
  records : after.store.records path = before ++ verdict.record r :: rest
  others {other : String} (h : other ≠ path) :
    after.store.records other = w.store.records other

theorem left_of_store {verdict : Verdict} {after : World} (h : after.AtRest)
    (hstore : ∀ p, after.store.records p = w.store.records p)
    (hrecords : w.store.records path = before ++ r :: rest) (hrecord : verdict.record r = r) :
    Left path before rest r w verdict after :=
  ⟨h, by rw [hstore, hrecords, hrecord], fun _ => hstore _⟩

theorem visit (relay : Relay) (key : Key) (remote : String) (h : w.AtRest)
    (hrecords : w.store.records path = before ++ r :: rest)
    (hnodup : ((before ++ r :: rest).map (·.provider)).Nodup) :
    ∃ verdict after, relay.Visited path key remote r w verdict after ∧
      Left path before rest r w verdict after ∧
      relay.revalidate path key remote (r :: rest) w =
        verdict.next (relay.revalidate path key remote rest) after := by
  have hcheck : Session.isStale r w = (.ok (w.store.policy.isStale r w.wall), w.readWall.2) := rfl
  rw [revalidate, Session.bind_of_ok hcheck]
  by_cases hstale : r.IsStale w.store.policy w.wall
  · rw [if_pos (w.store.policy.isStale_iff r w.wall |>.2 hstale)]
    obtain ⟨⟨answer, mid⟩, hask, hmid, honward, hfatal⟩ :=
      PolicyCall.answered relay.policy (.resolve key r.provider) h.atReadWall
    have hstore : mid.store = w.store := honward.store
    cases answer with
    | error f =>
      refine ⟨.failed f, mid, .fatal hstale hask (hfatal f rfl), ?_, Session.bind_of_error hask _⟩
      exact left_of_store hmid (fun p => by rw [hstore]) hrecords rfl
    | ok outcome =>
      change relay.policy.resolveProvider key r.provider w.readWall.2 = (.ok outcome, mid) at hask
      have hupsert : Session.upsert path r.provider (outcome.forFile remote) mid =
        ((mid.store.upsertAt path r.provider (outcome.forFile remote) mid.wall).1.mapError .failure,
          { mid.readWall.2 with
            store :=
              (mid.store.upsertAt path r.provider (outcome.forFile remote) mid.wall).2 }) := rfl
      rw [Session.bind_of_ok hask]
      -- the call left the store alone, so its answer goes to the records that were read before it
      rw [← hstore] at hrecords
      rcases Store.upsertAt_of_nodup hrecords hnodup (outcome.forFile remote) mid.wall with
        ⟨store, hsaved, hpath, hothers⟩ | ⟨f, store, hrefused, hkept⟩
      · rw [hsaved] at hupsert
        rw [Session.bind_of_ok hupsert]
        have hleft (verdict : Verdict)
            (hrecord : verdict.record r = r.told (outcome.forFile remote) mid.wall) :
            Left path before rest r w verdict { mid.readWall.2 with store } :=
          ⟨⟨hmid.limiter, hmid.patient⟩, hpath.trans (by rw [hrecord]),
            fun h => (hothers _ h).trans (by rw [hstore])⟩
        rw [r.toFile?_told]
        cases hfile : (outcome.forFile remote).file? with
        | none => exact ⟨_, _, .without hstale hask hupsert hfile, hleft _ rfl, rfl⟩
        | some file => exact ⟨_, _, .found hstale hask hupsert hfile, hleft _ rfl, rfl⟩
      · rw [hrefused] at hupsert
        refine ⟨.failed f, _, .unwritten hstale hask hupsert, ?_, Session.bind_of_error hupsert _⟩
        rw [hstore] at hrecords
        exact left_of_store ⟨hmid.limiter, hmid.patient⟩ (by rw [← hstore]; exact hkept)
          hrecords rfl
  · have hfresh : ¬ w.store.policy.isStale r w.wall = true := fun h =>
      hstale ((w.store.policy.isStale_iff r w.wall).1 h)
    rw [if_neg hfresh]
    have hleft : Left path before rest r w .fresh w.readWall.2 :=
      left_of_store h.atReadWall (fun _ => rfl) hrecords rfl
    exact ⟨.fresh, w.readWall.2, .fresh hstale, hleft, rfl⟩

theorem Visited.provider {verdict : Verdict} {after : World}
    (h : relay.Visited path key remote r w verdict after) :
    (verdict.record r).provider = r.provider := by
  cases h with
  | fresh | fatal | unwritten => rfl
  | without | found => exact ofOutcome_provider ..

theorem answerAfter_cons (path : String) {v : Visit} (h : v.verdict.goesOn = true)
    (visits : List Visit) : answerAfter path (v :: visits) = answerAfter path visits := by
  cases visits with
  | nil =>
    obtain ⟨record, verdict, after⟩ := v
    cases verdict with
    | fresh | without => rfl
    | found | failed => cases h
  | cons v' visits => rw [answerAfter, answerAfter, List.getLast?_cons_cons]

theorem Walk.cons {verdict : Verdict} {after : World} {visits : List Visit}
    {result : Except Halt CachedFile × World} (hgo : verdict.goesOn = true)
    (hvisit : relay.Visited path key remote r w verdict after)
    (hleft : Left path before rest r w verdict after)
    (h : relay.Walk path key remote (before ++ [verdict.record r]) rest after visits result) :
    relay.Walk path key remote before (r :: rest) w (⟨r, verdict, after⟩ :: visits) result where
  steps := ⟨hvisit, h.steps⟩
  order := List.cons_prefix_cons.2 ⟨rfl, h.order⟩
  onward := by
    intro v hv
    cases visits with
    | nil => cases hv
    | cons v' visits =>
      rw [List.dropLast_cons_cons] at hv
      rcases List.mem_cons.1 hv with rfl | hv
      · exact hgo
      · exact h.onward v hv
  whole hall := by
    have hrest := h.whole fun v hv => hall v (List.mem_cons_of_mem _ hv)
    rw [List.map_cons, hrest]
  answer := h.answer.trans (answerAfter_cons path hgo visits).symm
  records := by
    rw [h.records, List.map_cons, List.length_cons, List.drop_succ_cons]
    simp only [List.append_assoc, List.cons_append, List.nil_append]
  others hother := (h.others hother).trans (hleft.others hother)

theorem Walk.stop {verdict : Verdict} {after : World} (hstop : verdict.goesOn = false)
    (hvisit : relay.Visited path key remote r w verdict after)
    (hleft : Left path before rest r w verdict after) (go : Session CachedFile) :
    relay.Walk path key remote before (r :: rest) w [⟨r, verdict, after⟩]
      (verdict.next go after) := by
  have hstays : (verdict.next go after).2 = after ∧
      (verdict.next go after).1 = answerAfter path [⟨r, verdict, after⟩] := by
    cases verdict with
    | fresh | without => cases hstop
    | found | failed => exact ⟨rfl, rfl⟩
  obtain ⟨hworld, hanswer⟩ := hstays
  refine ⟨⟨hvisit, hworld⟩, ⟨rest, rfl⟩, (fun _ hv => nomatch hv), fun hall => ?_, hanswer, ?_,
    fun h => ?_⟩
  · have hgo := hall _ List.mem_cons_self
    rw [hstop] at hgo
    cases hgo
  · rw [hworld, hleft.records]
    simp only [List.map_cons, List.map_nil, List.append_assoc, List.cons_append, List.nil_append,
      List.length_singleton, List.drop_succ_cons, List.drop_zero]
  · rw [hworld, hleft.others h]

theorem revalidate_walks (relay : Relay) (key : Key) (remote : String) (h : w.AtRest)
    (hrecords : w.store.records path = before ++ rest)
    (hnodup : ((before ++ rest).map (·.provider)).Nodup) :
    ∃ visits, relay.Walk path key remote before rest w visits
      (relay.revalidate path key remote rest w) := by
  induction rest generalizing w before with
  | nil =>
    refine ⟨[], rfl, List.nil_prefix, (fun _ hv => nomatch hv), fun _ => rfl, rfl, ?_, fun _ => rfl⟩
    exact hrecords.trans (by simp)
  | cons r rest ih =>
    obtain ⟨verdict, after, hvisit, hleft, hrun⟩ := visit relay key remote h hrecords hnodup
    cases hgo : verdict.goesOn with
    | false => exact ⟨_, hrun ▸ Walk.stop hgo hvisit hleft _⟩
    | true =>
      have hnext : verdict.next (relay.revalidate path key remote rest) =
          relay.revalidate path key remote rest := by
        cases verdict with
        | fresh | without => rfl
        | found | failed => cases hgo
      have hafter : after.store.records path = before ++ [verdict.record r] ++ rest := by
        rw [hleft.records, List.append_assoc, List.singleton_append]
      have hnodup' : ((before ++ [verdict.record r] ++ rest).map (·.provider)).Nodup := by
        simpa [hvisit.provider] using hnodup
      obtain ⟨visits, hwalk⟩ := ih hleft.atRest hafter hnodup'
      rw [hrun, hnext]
      exact ⟨_, hwalk.cons hgo hvisit hleft⟩

end Relay

/-- The first record with a file is served as it is, and nothing happens. Without one the records
    are walked over, and the stale ones are asked about up to the first whose answer has the
    file. -/
theorem file_link_asks_about_stale_records (relay : Relay) (path : String) (key : Key) {w : World}
    (h : w.AtRest) (hnodup : ((w.store.records path).map (·.provider)).Nodup) :
    match (w.store.records path).findSome? Record.toFile? with
    | some file => relay.fileLink path key w = (.ok file, w)
    | none => ∃ visits, relay.Walk path key
        (((w.store.records path).findSome? (·.remotePath)).getD (VirtualFile.fileName path))
        [] (w.store.records path) w visits (relay.fileLink path key w) := by
  have hlist : Session.records path w = (.ok (w.store.records path), w) := rfl
  have hlink : relay.fileLink path key w =
      (match (w.store.records path).findSome? Record.toFile? with
      | some file => pure file
      | none => relay.revalidate path key (((w.store.records path).findSome? (·.remotePath)).getD
          (VirtualFile.fileName path)) (w.store.records path) : Session CachedFile) w :=
    Session.bind_of_ok hlist _
  rw [hlink]
  cases (w.store.records path).findSome? Record.toFile? with
  | some file => rfl
  | none => exact Relay.revalidate_walks relay key _ h rfl hnodup

/-- The second record goes stale while the first one's provider is asked, and its own has the file. -/
theorem file_link_asks_about_stale_records_of_two :
    let film : CachedFile := ⟨"film", 6, none, "http://x/a", .premiumize, 0, .empty⟩
    let holder : Script :=
      { provider := .premiumize, kind := .torrent, answers := [], fallback := .ok true,
        listings := [], files := .ok [film], link := .ok none, delayMs := 0, asked := (0, 0, 0) }
    let known (p : Provider) (at_ : Time) : Record :=
      ⟨p, .missing, at_, none, none, none, none, .empty⟩
    let records := [known .easynews 0, known .premiumize (Time.ofSeconds 7)]
    let store : Store := ⟨⟨Dictionary.empty.insert "/film" records, none⟩, ⟨5, 5, 5, 5⟩⟩
    let w := World.start [.scripted holder] (.ofStandard .standard) store
      ⟨[], [], .common⟩ fun n => Time.ofSeconds (10 + 10 * n)
    let relay : Relay := ⟨⟨0, 0, 0⟩⟩
    let key : Key := .torrent "hash" "magnet"
    store.policy.isStale (known .premiumize (Time.ofSeconds 7)) w.wall = false ∧
      (∃ visits, relay.Walk "/film" key "film" [] records w visits (relay.fileLink "/film" key w)) ∧
      (relay.fileLink "/film" key w).1.toOption.map (·.link) = some "http://x/a" := by
  intro film holder known records store w relay key
  have hrest : w.AtRest := ⟨Limiter.atRest_ofStandard .standard, rfl⟩
  have hrecords : w.store.records "/film" = records := rfl
  have hnodup : ((w.store.records "/film").map (·.provider)).Nodup := by decide
  have hlink := file_link_asks_about_stale_records relay "/film" key hrest hnodup
  exact ⟨by decide, hlink, by decide⟩

end LinkRelay
