import LinkRelay.Proofs.Relay.Course
set_option autoImplicit false

/-!
# Files that were deleted

A deleted path is unknown, and stays so while links are looked up and streams are opened. A refresh
records its answer without a look at the path: it makes a deleted path known again, whether a caller
asks for it or a stream that was opened before.
-/

namespace LinkRelay

namespace Store

variable {s : Store} {path : String}

def Unknown (path : String) (s : Store) : Prop := path ∉ s.paths

theorem unknown_iff : s.Unknown path ↔ s.backend.files.get? path = none := by
  rw [Unknown, paths, Dictionary.mem_keys, Option.isSome_iff_ne_none, not_not]

theorem Unknown.records (h : s.Unknown path) : s.records path = [] := by
  rw [Store.records, Backend.records, Catalog.records, unknown_iff.1 h]
  rfl

theorem unknown_of_deleteFile {known : Bool} {s' : Store}
    (h : s.deleteFile path = (.ok known, s')) : s'.Unknown path := by
  rw [deleteFile] at h
  rcases hdelete : s.backend.delete path with ⟨answer, backend⟩
  rw [hdelete] at h
  cases h
  rw [unknown_iff, Backend.delete_ok hdelete, Dictionary.get?_erase, if_pos rfl]

theorem Unknown.deleteFile (h : s.Unknown path) (other : String) :
    (s.deleteFile other).2.Unknown path := by
  rw [unknown_iff] at h ⊢
  change (s.backend.delete other).2.files.get? path = none
  cases hknown : s.backend.files.get? other with
  | none =>
    rw [s.backend.delete_of_unknown hknown]
    exact h
  | some previous =>
    rw [s.backend.delete_eq_change hknown]
    have hchanged := s.backend.changed (s.backend.files.erase other)
    have herased : (s.backend.files.erase other).get? path = none := by
      rw [Dictionary.get?_erase, h, ite_self]
    generalize s.backend.change (s.backend.files.erase other) = result at hchanged
    cases hchanged with
    | memory | written => exact herased
    | refused => exact h

theorem Unknown.upsertAt (h : s.Unknown path) {other : String} (hother : other ≠ path)
    (provider : Provider) (outcome : FileOutcome) (now : Time) :
    (s.upsertAt other provider outcome now).2.Unknown path := by
  rw [unknown_iff] at h ⊢
  have hinserted (records : List Record) :
      (s.backend.files.insert other records).get? path = none := by
    rw [Dictionary.get?_insert, if_neg (Ne.symm hother), h]
  have hupserted := s.upserted other provider outcome now
  generalize s.upsertAt other provider outcome now = result at hupserted
  cases hupserted with
  | recorded => exact hinserted _
  | refused => exact h

end Store

open Store (Unknown)

namespace Session.Keeps

variable {path other : String}

theorem upsert (hother : other ≠ path) (provider : Provider) (outcome : FileOutcome) :
    Keeps (Unknown path) (Session.upsert other provider outcome) := by
  refine bind (s := Session.readWall) (of_store fun _ => rfl) fun now => ?_
  exact onStore fun s hs => hs.upsertAt hother provider outcome now

theorem deleteFile (other : String) : Keeps (Unknown path) (Session.deleteFile other) :=
  onStore fun _ hs => hs.deleteFile other

end Session.Keeps

theorem LinkStream.next_of_quiet {m : Type → Type} [Monad m] {stream : LinkStream}
    (supply : Supply m) (h : stream.refreshed = true ∨ stream.pull.1.isOk = true) :
    ∃ r, stream.next supply = pure r := by
  have hrefreshed : stream.pull.2.refreshed = stream.refreshed := by
    unfold pull
    split
    · rfl
    · split
      · rfl
      · split <;> rfl
  unfold next
  rcases hpull : stream.pull with ⟨f | chunk, after⟩
  · rw [hpull] at h hrefreshed
    dsimp only
    rw [if_pos (hrefreshed.trans (h.resolve_right nofun))]
    exact ⟨_, rfl⟩
  · exact ⟨_, rfl⟩

namespace Part

def Spares (path : String) : Part → Prop
  | .upsert other .. => other ≠ path
  | _ => True

def MayAnswer (path : String) : (part : Part) → Except Failure part.Answer → Prop
  | .records other, answer => other = path → answer = .ok []
  | _, _ => True

variable {path : String} {relay : Relay} {part : Part}

theorem keeps_unknown (relay : Relay) (h : part.Spares path) :
    Session.Keeps (Unknown path) (part.session relay) := by
  cases part with
  | records other => exact .records other
  | isStale r => exact .isStale r
  | resolve key => exact .resolve relay.policy key
  | resolveProvider key p => exact .resolveProvider relay.policy key p
  | refreshFile key file => exact .refreshFile relay.policy key file
  | upsert other provider outcome => exact .upsert h provider outcome
  | deleteFile other => exact .deleteFile other
  | isLinkAlive link => exact (Session.Keeps.talk _).bind fun _ => .ofExcept _
  | send p => exact (Session.Keeps.talk _).bind fun _ => .ofExcept _
  | count s => exact .count s

theorem mayAnswer {w v : World} {answer : Except Failure part.Answer} (h : w.store.Unknown path)
    (hanswer : (part.session relay).attempt.run w = (.ok answer, v)) :
    part.MayAnswer path answer := by
  cases part with
  | records other =>
    rintro rfl
    have hread : Session.records other w = (.ok (w.store.records other), w) := rfl
    have hboth := hanswer.symm.trans (Session.attempt_of_ok hread)
    rw [h.records] at hboth
    exact Except.ok.inj (congrArg Prod.fst hboth)
  | _ => trivial

end Part

namespace Course

variable {α β : Type} {path : String}

/-- Whether nothing is left of a course that writes to a path, as long as that is unknown. -/
def Spares (path : String) : Course α → Prop
  | .done _ => True
  | .go part rest =>
    part.Spares path ∧ ∀ answer, part.MayAnswer path answer → (rest answer).Spares path

theorem Spares.bind {c : Course α} {f : α → Course β} (h : c.Spares path)
    (hf : ∀ a, (f a).Spares path) : (c >>= f).Spares path := by
  induction c with
  | done a => exact hf a
  | go part rest ih => exact ⟨h.1, fun answer hanswer => ih answer (h.2 answer hanswer)⟩

end Course

namespace Passage

variable {α β : Type} {path other : String} (key : Key)

def Spares (path : String) (x : Passage α) : Prop := Course.Spares path x.run

theorem Spares.bind {x : Passage α} {f : α → Passage β} (h : x.Spares path)
    (hf : ∀ a, (f a).Spares path) : (x >>= f).Spares path := by
  refine Course.Spares.bind h fun r => ?_
  cases r with
  | ok a => exact hf a
  | error f => trivial

theorem spares_pure (a : α) : (pure a : Passage α).Spares path := trivial

theorem spares_throw (f : Failure) : (throw f : Passage α).Spares path := trivial

theorem spares_ofPart {part : Part} (h : part.Spares path) : (ofPart part).Spares path :=
  ⟨h, fun _ _ => trivial⟩

theorem spares_upsert (h : other ≠ path) (provider : Provider) (outcome : FileOutcome) :
    (ofPart (.upsert other provider outcome)).Spares path :=
  spares_ofPart h

theorem spares_ofExcept (r : Except Failure α) : (liftM r : Passage α).Spares path := by
  cases r <;> trivial

theorem Spares.attempt {x : Passage α} (h : x.Spares path) : x.attempt.Spares path :=
  Course.Spares.bind h fun _ => trivial

section Other

variable (hother : other ≠ path)

include hother

theorem spares_revalidate (remote : String) (records : List Record) :
    (revalidate other key remote records).Spares path := by
  induction records with
  | nil => exact spares_throw _
  | cons r rest ih =>
    refine (spares_ofPart (by trivial)).bind fun isStale => ?_
    split
    · refine (spares_ofPart (by trivial)).bind fun outcome => ?_
      refine (spares_upsert hother _ _).bind fun updated => ?_
      split
      · exact spares_pure _
      · exact ih
    · exact ih

theorem spares_fileLink : (fileLink other key).Spares path := by
  refine (spares_ofPart (by trivial)).bind fun records => ?_
  split
  · exact spares_pure _
  · exact spares_revalidate key hother _ records

theorem spares_refreshLink (dead : CachedFile) : (refreshLink other key dead).Spares path := by
  refine (spares_ofPart (by trivial)).bind fun outcome => ?_
  refine (spares_upsert hother _ _).bind fun updated => ?_
  split
  · exact (spares_ofPart (by trivial)).bind fun _ => spares_pure _
  · exact (spares_ofPart (by trivial)).bind fun _ => spares_throw _

theorem spares_replaceLink (dead : CachedFile) : (replaceLink other key dead).Spares path :=
  (spares_ofPart (by trivial)).bind fun _ => spares_refreshLink key hother dead

omit hother in
theorem spares_openOver (range : Option RangeRequest) (file : CachedFile) :
    (openOver other key range file).Spares path := by
  refine (spares_ofExcept _).bind fun prepared => Spares.attempt ?_
  exact (spares_ofPart (by trivial)).bind fun _ => spares_pure _

omit hother in
theorem spares_openFresh (range : Option RangeRequest) (file : CachedFile) :
    (openFresh other key range file).Spares path := by
  refine (spares_openOver key range file).bind fun opened => ?_
  split
  · exact spares_pure _
  · exact spares_throw _

theorem spares_openStream (range : Option RangeRequest) :
    (openStream other key range).Spares path := by
  have hreplaced (file : CachedFile) :
      (replaceLink other key file >>= openFresh other key range).Spares path :=
    (spares_replaceLink key hother file).bind fun fresh => spares_openFresh key range fresh
  refine (spares_fileLink key hother).bind fun file => ?_
  refine (spares_ofPart (by trivial)).attempt.bind fun alive => ?_
  split
  · refine (spares_openOver key range file).bind fun opened => ?_
    split
    · exact spares_pure _
    · exact hreplaced file
  · exact hreplaced file

theorem spares_next (stream : LinkStream) :
    (stream.next (supply other key)).Spares path := by
  unfold LinkStream.next
  split
  · trivial
  · split
    · trivial
    · refine Course.Spares.bind (Spares.bind (spares_replaceLink key hother _) fun fresh => ?_)
        fun r => ?_
      · refine (spares_ofExcept _).bind fun prepared => ?_
        exact (spares_ofPart (by trivial)).bind fun _ => spares_pure _
      · split <;> trivial

end Other

theorem spares_fileLink_self : (fileLink path key).Spares path :=
  ⟨trivial, fun _ hanswer => hanswer rfl ▸ trivial⟩

theorem spares_openStream_self (range : Option RangeRequest) :
    (openStream path key range).Spares path :=
  ⟨trivial, fun _ hanswer => hanswer rfl ▸ trivial⟩

theorem spares_record {entries : List VirtualFile.Entry} (h : ∀ e ∈ entries, e.path ≠ path) :
    (forIn entries PUnit.unit fun e _ => do
      let _ ← ofPart (.upsert e.path e.provider e.outcome)
      pure (.yield PUnit.unit) : Passage PUnit).Spares path := by
  induction entries with
  | nil => exact spares_pure _
  | cons e rest ih =>
    rw [List.forIn_cons]
    refine Spares.bind ((spares_upsert (h e List.mem_cons_self) _ _).bind fun _ => spares_pure _)
      fun step => ?_
    split
    · exact spares_pure _
    · exact ih fun e he => h e (List.mem_cons_of_mem _ he)

end Passage

namespace Course

variable {α : Type} {path : String} {relay : Relay} {w : World}

def SparesFrom (relay : Relay) (path : String) (w : World) : Course α → Prop
  | .done _ => True
  | .go part rest => part.Spares path ∧ ∀ answer v,
    (part.session relay).attempt.run w = (.ok answer, v) → (rest answer).Spares path

theorem Spares.sparesFrom {c : Course α} (h : c.Spares path) (hw : w.store.Unknown path) :
    c.SparesFrom relay path w := by
  cases c with
  | done a => trivial
  | go part rest => exact ⟨h.1, fun answer v hanswer => h.2 answer (part.mayAnswer hw hanswer)⟩

theorem SparesFrom.unknown {c : Course α} (h : c.SparesFrom relay path w)
    (hw : w.store.Unknown path) : (c.session relay w).2.store.Unknown path := by
  induction c generalizing w with
  | done a => exact hw
  | go part rest ih =>
    have hkept := (part.keeps_unknown relay h.1).attempt w hw
    rw [session]
    rcases hpart : (part.session relay).attempt.run w with ⟨halt | answer, v⟩
    · rw [Session.bind_of_error hpart]
      rw [hpart] at hkept
      exact hkept
    · rw [Session.bind_of_ok hpart]
      rw [hpart] at hkept
      exact ih answer ((h.2 answer v hpart).sparesFrom hkept) hkept

end Course

namespace Relay

variable {path : String} (relay : Relay) {w : World}

theorem unknown_of_deleteFile {relay : Relay} {v : World} {known : Bool}
    (hdelete : relay.deleteFile path v = (.ok known, w)) : w.store.Unknown path := by
  rcases hstore : v.store.deleteFile path with ⟨answer, store⟩
  have hworld : relay.deleteFile path v =
      ((v.store.deleteFile path).1.mapError .failure,
        { v with store := (v.store.deleteFile path).2 }) := rfl
  rw [hworld, hstore] at hdelete
  cases answer with
  | ok known =>
    cases hdelete
    exact Store.unknown_of_deleteFile hstore
  | error f => cases hdelete

/-- The virtual paths of the content that a key has now. -/
def Brings (key : Key) (root : String) (w : World) (path : String) : Prop :=
  ∃ resolutions v, relay.policy.resolve key w = (.ok resolutions, v) ∧
    path ∈ (VirtualFile.ofFiles root (Resolution.files resolutions)).map (·.path)

theorem ne_of_not_brings {relay : Relay} {key : Key} {root : String} {v : World}
    {resolutions : List Resolution} (hnot : ¬ relay.Brings key root w path)
    (hresolve : relay.policy.resolve key w = (.ok resolutions, v)) :
    ∀ e ∈ VirtualFile.entries root resolutions, e.path ≠ path := by
  rintro e he rfl
  obtain ⟨f, hf, he⟩ := List.mem_flatMap.1 he
  obtain ⟨r, -, rfl⟩ := List.mem_map.1 he
  exact hnot ⟨resolutions, v, hresolve, List.mem_map_of_mem hf⟩

end Relay

namespace Service

/-- Whether an errand neither adds a path, nor writes to it, nor refreshes its link. -/
def Quiet (relay : Relay) (path : String) (s : Service) : Errand → Prop
  | .addContent key root => ¬ relay.Brings key root s.world path
  | .fileLink .. | .openStream .. | .deleteFile _ => True
  | .refreshLink other .. | .upsert other .. => other ≠ path
  | .next n => ∀ o, s.streams[n]? = some o → o.path = path →
    o.stream.refreshed = true ∨ o.stream.pull.1.isOk = true

def QuietRun (relay : Relay) (path : String) : Service → List Errand → Prop
  | _, [] => True
  | s, e :: rest => s.Quiet relay path e ∧ QuietRun relay path (s.serve relay e) rest

end Service

namespace Errand

variable {relay : Relay} {path : String} {s : Service}

theorem spares_nothing {α : Type} {x : Passage α} (h : x.Spares path) :
    (x.run >>= fun _ => pure .nothing : Course Landing).Spares path :=
  Course.Spares.bind h fun _ => trivial

theorem spares_next {n : Nat} (hquiet : s.Quiet relay path (.next n)) :
    ((Errand.next n).course s.streams).Spares path := by
  rw [course]
  cases ho : s.streams[n]? with
  | none => trivial
  | some o =>
    refine Course.Spares.bind (c := o.stream.next (Passage.supply o.path o.key)) ?_ fun _ => trivial
    by_cases hother : o.path = path
    · obtain ⟨r, hnext⟩ :=
        LinkStream.next_of_quiet (Passage.supply o.path o.key) (hquiet o ho hother)
      rw [hnext]
      trivial
    · exact Passage.spares_next o.key hother o.stream

theorem sparesFrom_addContent {key : Key} {root : String}
    (h : ¬ relay.Brings key root s.world path) :
    ((Errand.addContent key root).course s.streams).SparesFrom relay path s.world := by
  refine ⟨trivial, fun answer v hanswer => ?_⟩
  rcases hresolve : relay.policy.resolve key s.world with ⟨(f | _) | resolutions, w⟩
  · cases hanswer.symm.trans (Session.attempt_of_failure hresolve)
    trivial
  · cases hanswer.symm.trans (Session.attempt_of_abandoned hresolve)
  · cases hanswer.symm.trans (Session.attempt_of_ok hresolve)
    have hrecord := Passage.spares_record (Relay.ne_of_not_brings h hresolve)
    have hrest : Passage.Spares path (do
        if (Resolution.files resolutions).isEmpty then throw (.noCachedFiles key.display)
        for e in VirtualFile.entries root resolutions do
          let _ ← Passage.ofPart (.upsert e.path e.provider e.outcome)
        return VirtualFile.ofFiles root (Resolution.files resolutions)) := by
      dsimp only
      split
      · exact Passage.spares_throw _
      · exact hrecord.bind fun _ => Passage.spares_pure _
    exact spares_nothing hrest

theorem sparesFrom_course {e : Errand} (hquiet : s.Quiet relay path e)
    (hunknown : s.world.store.Unknown path) :
    (e.course s.streams).SparesFrom relay path s.world := by
  cases e with
  | addContent key root => exact sparesFrom_addContent hquiet
  | fileLink other key =>
    refine Course.Spares.sparesFrom (spares_nothing ?_) hunknown
    by_cases hother : other = path
    · subst hother
      exact Passage.spares_fileLink_self key
    · exact Passage.spares_fileLink key hother
  | refreshLink other key dead =>
    exact Course.Spares.sparesFrom (spares_nothing (Passage.spares_refreshLink key hquiet dead))
      hunknown
  | openStream other key range =>
    have hopen : (Passage.openStream other key range).Spares path := by
      by_cases hother : other = path
      · subst hother
        exact Passage.spares_openStream_self key range
      · exact Passage.spares_openStream key hother range
    refine Course.Spares.sparesFrom (Course.Spares.bind hopen fun r => ?_) hunknown
    cases r <;> trivial
  | next n => exact (spares_next hquiet).sparesFrom hunknown
  | deleteFile other =>
    exact Course.Spares.sparesFrom (spares_nothing (Passage.spares_ofPart (by trivial))) hunknown
  | upsert other provider outcome =>
    exact Course.Spares.sparesFrom (spares_nothing (Passage.spares_upsert hquiet _ _)) hunknown

end Errand

namespace Service

variable {relay : Relay} {path : String} {s : Service}

theorem unknown_of_quiet {e : Errand} (h : s.world.store.Unknown path)
    (hquiet : s.Quiet relay path e) : (s.serve relay e).world.store.Unknown path := by
  rw [serve_eq_landed, landed_world]
  exact (Errand.sparesFrom_course hquiet h).unknown h

theorem unknown_of_quietRun {errands : List Errand} (h : s.world.store.Unknown path)
    (hquiet : QuietRun relay path s errands) :
    (s.serveAll relay errands).world.store.Unknown path := by
  induction errands generalizing s with
  | nil => exact h
  | cons e rest ih => exact ih (unknown_of_quiet h hquiet.1) hquiet.2

end Service

/-- Once a deletion has returned, the path stays without records through every run of errands that
    neither adds it, nor writes to it, nor refreshes a link on it. -/
theorem deleted_path_stays_unknown (relay : Relay) {path : String} {s : Service} {known : Bool}
    {w : World} (hdelete : relay.deleteFile path s.world = (.ok known, w)) {errands : List Errand}
    (hquiet : Service.QuietRun relay path { s with world := w } errands) :
    path ∉ (Service.serveAll relay { s with world := w } errands).world.store.paths ∧
      (Service.serveAll relay { s with world := w } errands).world.store.records path = [] := by
  have hunknown := Relay.unknown_of_deleteFile hdelete
  have hlater := Service.unknown_of_quietRun hunknown hquiet
  exact ⟨hlater, hlater.records⟩

namespace Service

/-- A film with a stream on it that has read nothing. The response breaks off after a byte, and the
    provider knows a fresh link. -/
def screening : Service :=
  let file : CachedFile := ⟨"film", 3, none, "http://host/film", .premiumize, 0, ∅⟩
  let client : Client := .scripted
    { provider := .premiumize, kind := .torrent, answers := [], fallback := .ok true,
      listings := [], files := .ok [file], link := .ok (some "http://host/fresh"), delayMs := 0,
      asked := (0, 0, 0) }
  let wire : Http.Wire := ⟨[some ⟨200, [], [], .close⟩, some ⟨200, [], [1], .length 3⟩], [], .common⟩
  let w := World.start [client] (.ofStandard .standard) ⟨.memory, default⟩ wire (fun _ => 0)
  serveAll ⟨⟨0, 0, 0⟩⟩ ⟨w, []⟩
    [.upsert "/film" .premiumize (.cached file), .openStream "/film" (.torrent "hash" "") none]

end Service

/-- The deleted film is not found again, also where its stream goes on and another file is added
    and refreshed. -/
theorem deleted_film_stays_unknown :
    let relay : Relay := ⟨⟨0, 0, 0⟩⟩
    let key : Key := .torrent "hash" ""
    let other : CachedFile := ⟨"other", 3, none, "http://host/other", .premiumize, 0, ∅⟩
    let s := Service.screening
    let errands : List Errand := [.next 0, .fileLink "/film" key, .openStream "/film" key none,
      .upsert "/other" .premiumize (.cached other), .refreshLink "/other" key other,
      .deleteFile "/film"]
    ∃ w, relay.deleteFile "/film" s.world = (.ok true, w) ∧
      "/film" ∉ (Service.serveAll relay { s with world := w } errands).world.store.paths ∧
      (Service.serveAll relay { s with world := w } errands).world.store.records "/film" = [] := by
  intro relay key other s errands
  have hok : (relay.deleteFile "/film" s.world).1.toOption = some true := by decide +kernel
  have hpull : (s.streams[0]?.all fun o => o.stream.pull.1.isOk) = true := by decide +kernel
  clear_value s
  rcases hdelete : relay.deleteFile "/film" s.world with ⟨halt | known, w⟩
  · rw [hdelete] at hok
    cases hok
  · rw [hdelete] at hok
    obtain rfl : known = true := Option.some.inj hok
    have hstream : ∀ o, s.streams[0]? = some o → o.path = "/film" →
        o.stream.refreshed = true ∨ o.stream.pull.1.isOk = true := by
      intro o ho _
      rw [ho] at hpull
      exact .inr hpull
    have hother : "/other" ≠ "/film" := by decide
    have hquiet : Service.QuietRun relay "/film" { s with world := w } errands :=
      ⟨hstream, trivial, trivial, hother, hother, trivial, trivial⟩
    exact ⟨w, rfl, deleted_path_stays_unknown relay hdelete hquiet⟩

/-- A refresh makes the deleted film known again, and so does the stream that was open on it. -/
theorem deleted_film_is_known_after_refresh :
    let relay : Relay := ⟨⟨0, 0, 0⟩⟩
    let key : Key := .torrent "hash" ""
    let deleted := Service.screening.serve relay (.deleteFile "/film")
    let refreshed := deleted.serve relay
      (.refreshLink "/film" key ⟨"film", 3, none, "http://host/film", .premiumize, 0, ∅⟩)
    let read := deleted.serveAll relay [.next 0, .next 0]
    Service.screening.world.store.paths = ["/film"] ∧ deleted.world.store.paths = [] ∧
      refreshed.world.store.paths = ["/film"] ∧ read.world.store.paths = ["/film"] ∧
      (relay.fileLink "/film" key read.world).1.toOption.map (·.link) =
        some "http://host/fresh" := by
  decide +kernel

end LinkRelay
