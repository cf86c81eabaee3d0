import LinkRelay.Proofs.Relay.Content
set_option autoImplicit false

/-!
# Errands and their parts

A service serves errands: it does what callers ask of a relay, and holds the streams that it opened
for them. While an errand waits for a provider, for a link or for the store, others go on. The
course of an errand has the parts between which it waits, each followed by what the answer leads to.
All parts together, with nobody in between, are the errand as it is served whole.
-/

namespace LinkRelay

structure OpenStream where
  path : String
  key : Key
  stream : LinkStream

/-- What callers ask of a relay, reads of the streams that it opened among it. -/
inductive Errand where
  | addContent (key : Key) (root : String)
  | fileLink (path : String) (key : Key)
  | refreshLink (path : String) (key : Key) (dead : CachedFile)
  | openStream (path : String) (key : Key) (range : Option RangeRequest)
  | next (number : Nat)
  | deleteFile (path : String)
  | upsert (path : String) (provider : Provider) (outcome : FileOutcome)

/-- A world with the streams that were opened in it. -/
structure Service where
  world : World
  streams : List OpenStream

namespace Service

def serve (relay : Relay) (s : Service) : Errand → Service
  | .addContent key root => { s with world := (relay.addContent key root s.world).2 }
  | .fileLink path key => { s with world := (relay.fileLink path key s.world).2 }
  | .refreshLink path key dead => { s with world := (relay.refreshLink path key dead s.world).2 }
  | .openStream path key range =>
    match relay.openStream path key range s.world with
    | (.ok stream, world) => ⟨world, s.streams ++ [⟨path, key, stream⟩]⟩
    | (.error _, world) => { s with world }
  | .next n =>
    match s.streams[n]? with
    | none => s
    | some o =>
      match o.stream.next (relay.supply o.path o.key) s.world with
      | (.ok (_, stream), world) => ⟨world, s.streams.set n { o with stream }⟩
      | (.error _, world) => { s with world }
  | .deleteFile path => { s with world := (relay.deleteFile path s.world).2 }
  | .upsert path provider outcome =>
    { s with world := (Session.upsert path provider outcome s.world).2 }

def serveAll (relay : Relay) (s : Service) (errands : List Errand) : Service :=
  errands.foldl (serve relay) s

variable {s : Service}

theorem serve_openStream (relay : Relay) (s : Service) (path : String) (key : Key)
    (range : Option RangeRequest) :
    (s.serve relay (.openStream path key range)).world =
      (relay.openStream path key range s.world).2 := by
  rw [serve]
  split
  next heq => rw [heq]
  next heq => rw [heq]

theorem serve_next (relay : Relay) {n : Nat} {o : OpenStream} (ho : s.streams[n]? = some o) :
    (s.serve relay (.next n)).world =
      (o.stream.next (relay.supply o.path o.key) s.world).2 := by
  rw [serve, ho]
  dsimp only
  split
  next heq => rw [heq]
  next heq => rw [heq]

end Service

/-- What an errand does at once. -/
inductive Part where
  | records (path : String)
  | isStale (r : Record)
  | resolve (key : Key)
  | resolveProvider (key : Key) (p : Provider)
  | refreshFile (key : Key) (file : CachedFile)
  | upsert (path : String) (provider : Provider) (outcome : FileOutcome)
  | deleteFile (path : String)
  | isLinkAlive (link : String)
  | send (p : Prepared)
  | count (s : Series)

namespace Part

abbrev Answer : Part → Type
  | .records _ => List Record
  | .isStale _ | .isLinkAlive _ | .deleteFile _ => Bool
  | .resolve _ => List Resolution
  | .resolveProvider .. | .refreshFile .. => Outcome
  | .upsert .. => Record
  | .send _ => Http.Response
  | .count _ => Unit

def session (relay : Relay) : (part : Part) → Session part.Answer
  | .records path => Session.records path
  | .isStale r => Session.isStale r
  | .resolve key => relay.policy.resolve key
  | .resolveProvider key p => relay.policy.resolveProvider key p
  | .refreshFile key file => relay.policy.refreshFile key file
  | .upsert path provider outcome => Session.upsert path provider outcome
  | .deleteFile path => relay.deleteFile path
  | .isLinkAlive link => Session.talk (LinkRelay.isLinkAlive link) >>= Session.ofExcept
  | .send p => Session.talk p.send >>= Session.ofExcept
  | .count s => Session.count s

end Part

namespace Session

variable {α : Type} {s : Session α} {w v : World}

theorem attempt_of_ok {a : α} (h : s w = (.ok a, v)) : s.attempt.run w = (.ok (.ok a), v) := by
  simp only [attempt, ExceptT.run, ExceptT.mk, h]

theorem attempt_of_failure {f : Failure} (h : s w = (.error (.failure f), v)) :
    s.attempt.run w = (.ok (.error f), v) := by
  simp only [attempt, ExceptT.run, ExceptT.mk, h]

theorem attempt_of_abandoned (h : s w = (.error .abandoned, v)) :
    s.attempt.run w = (.error .abandoned, v) := by
  simp only [attempt, ExceptT.run, ExceptT.mk, h]

theorem attempt_bind_ofExcept (s : Session α) : s.attempt.run >>= ofExcept = s := by
  funext w
  rcases hs : s w with ⟨(f | _) | a, v⟩
  · exact bind_of_ok (attempt_of_failure hs) _
  · exact bind_of_error (attempt_of_abandoned hs) _
  · exact bind_of_ok (attempt_of_ok hs) _

theorem attempt_talk (t : Http.OnWire α) : (talk t >>= ofExcept).attempt.run = talk t := by
  funext w
  rcases ht : t.run w.wire with ⟨f | a, wire⟩
  · have htalk : talk t w = (.ok (.error f), { w with wire }) := by
      simp only [talk, ExceptT.mk, ht]
    rw [htalk]
    exact attempt_of_failure (bind_of_ok htalk _)
  · have htalk : talk t w = (.ok (.ok a), { w with wire }) := by
      simp only [talk, ExceptT.mk, ht]
    rw [htalk]
    exact attempt_of_ok (bind_of_ok htalk _)

end Session

inductive Course (α : Type) where
  | done (a : α)
  | go (part : Part) (rest : Except Failure part.Answer → Course α)

namespace Course

variable {α β : Type}

def bind : Course α → (α → Course β) → Course β
  | .done a, f => f a
  | .go part rest, f => .go part fun answer => (rest answer).bind f

instance : Monad Course where
  pure := .done
  bind := bind

def session (relay : Relay) : Course α → Session α
  | .done a => pure a
  | .go part rest => do
    let answer ← (part.session relay).attempt.run
    (rest answer).session relay

theorem session_bind (relay : Relay) (c : Course α) (f : α → Course β) :
    (c >>= f).session relay = c.session relay >>= fun a => (f a).session relay := by
  induction c with
  | done a => rfl
  | go part rest ih =>
    change ((part.session relay).attempt.run >>= fun answer => (rest answer >>= f).session relay) = _
    rw [session, bind_assoc]
    exact bind_congr ih

/-- A failure of a part is answered, so that a course only ends early where it is abandoned. -/
theorem session_abandoned (relay : Relay) (c : Course α) {w v : World} {halt : Halt}
    (h : c.session relay w = (.error halt, v)) : halt = .abandoned := by
  induction c generalizing w with
  | done a => cases h
  | go part rest ih =>
    rw [session] at h
    rcases hpart : part.session relay w with ⟨(f | _) | a, u⟩
    · rw [Session.bind_of_ok (Session.attempt_of_failure hpart)] at h
      exact ih _ h
    · rw [Session.bind_of_error (Session.attempt_of_abandoned hpart)] at h
      cases h
      rfl
    · rw [Session.bind_of_ok (Session.attempt_of_ok hpart)] at h
      exact ih _ h

end Course

abbrev Passage := ExceptT Failure Course

namespace Passage

variable {α β : Type} (relay : Relay)

def ofPart (part : Part) : Passage part.Answer := ExceptT.mk (.go part .done)

def session (x : Passage α) : Session α := Course.session relay x.run >>= Session.ofExcept

theorem session_bind (x : Passage α) (f : α → Passage β) :
    (x >>= f).session relay = x.session relay >>= fun a => (f a).session relay := by
  rw [session, ExceptT.run_bind, Course.session_bind, session, bind_assoc, bind_assoc]
  refine bind_congr fun r => ?_
  cases r with
  | ok a => rfl
  | error f => rfl

theorem session_ofPart (part : Part) : (ofPart part).session relay = part.session relay := by
  have hone : Course.session relay (ofPart part).run = (part.session relay).attempt.run :=
    bind_pure _
  rw [session, hone]
  exact Session.attempt_bind_ofExcept _

theorem run_session (x : Passage α) :
    Course.session relay x.run = (x.session relay).attempt.run := by
  funext w
  rcases hrun : Course.session relay x.run w with ⟨halt | f | a, v⟩
  · obtain rfl := Course.session_abandoned relay _ hrun
    exact (Session.attempt_of_abandoned (Session.bind_of_error hrun _)).symm
  · exact (Session.attempt_of_failure (Session.bind_of_ok hrun _)).symm
  · exact (Session.attempt_of_ok (Session.bind_of_ok hrun _)).symm

def attempt (x : Passage α) : Passage (Except Failure α) := ExceptT.lift x.run

theorem session_attempt (x : Passage α) :
    x.attempt.session relay = Course.session relay x.run := by
  change Course.session relay (x.run >>= fun r => pure (.ok r)) >>= Session.ofExcept = _
  rw [Course.session_bind, bind_assoc]
  exact bind_pure _

theorem run_session_bind {x : Passage α} {f : α → Passage β} {x' : ExceptT Failure Session α}
    {f' : α → ExceptT Failure Session β} (h : Course.session relay x.run = x'.run)
    (hf : ∀ a, Course.session relay (f a).run = (f' a).run) :
    Course.session relay (x >>= f).run = (x' >>= f').run := by
  rw [ExceptT.run_bind, Course.session_bind, h, ExceptT.run_bind]
  refine bind_congr fun r => ?_
  cases r with
  | ok a => exact hf a
  | error f => rfl

theorem session_forIn {σ : Type} (l : List α) (b : σ) (f : α → σ → Passage (ForInStep σ)) :
    (forIn l b f).session relay = forIn l b fun a b => (f a b).session relay := by
  induction l generalizing b with
  | nil => rfl
  | cons a l ih =>
    rw [List.forIn_cons, List.forIn_cons, session_bind]
    refine bind_congr fun step => ?_
    cases step with
    | done b => rfl
    | yield b => exact ih b

theorem session_ofExcept (r : Except Failure α) :
    (liftM r : Passage α).session relay = Session.ofExcept r := by
  cases r <;> rfl

variable (path : String) (key : Key)

def revalidate (remote : String) : List Record → Passage CachedFile
  | [] => throw (.noLiveLink path)
  | r :: rest => do
    if ← ofPart (.isStale r) then
      let outcome ← ofPart (.resolveProvider key r.provider)
      let updated ← ofPart (.upsert path r.provider (outcome.forFile remote))
      match updated.toFile? with
      | some file => return file
      | none => revalidate remote rest
    else revalidate remote rest

def fileLink : Passage CachedFile := do
  let records ← ofPart (.records path)
  match records.findSome? Record.toFile? with
  | some file => return file
  | none =>
    let remote := (records.findSome? (·.remotePath)).getD (VirtualFile.fileName path)
    revalidate path key remote records

def refreshLink (dead : CachedFile) : Passage CachedFile := do
  let outcome := (← ofPart (.refreshFile key dead)).forFile dead.path
  let updated ← ofPart (.upsert path dead.provider outcome)
  match outcome, updated.toFile? with
  | .cached _, some fresh =>
    ofPart (.count (.linkRefreshed dead.provider true))
    return fresh
  | _, _ =>
    ofPart (.count (.linkRefreshed dead.provider false))
    throw (.noLiveLink path)

def replaceLink (dead : CachedFile) : Passage CachedFile := do
  ofPart (.count (.deadLink dead.provider))
  refreshLink path key dead

def supply : Supply Course where
  send p := ofPart (.send p)
  refresh dead := replaceLink path key dead

def openOver (range : Option RangeRequest) (file : CachedFile) :
    Passage (Except Failure LinkStream) := do
  let prepared ← Prepared.ofRange file range
  attempt (LinkStream.start (supply path key) file prepared)

def openFresh (range : Option RangeRequest) (file : CachedFile) : Passage LinkStream := do
  match ← openOver path key range file with
  | .ok stream => return stream
  | .error _ => throw (.noLiveLink path)

def openStream (range : Option RangeRequest) : Passage LinkStream := do
  let file ← fileLink path key
  match ← attempt (ofPart (.isLinkAlive file.link)) with
  | .ok true =>
    match ← openOver path key range file with
    | .ok stream => return stream
    | .error _ => openFresh path key range (← replaceLink path key file)
  | _ => openFresh path key range (← replaceLink path key file)

def addContent (root : String) : Passage (List VirtualFile) := do
  let resolutions ← ofPart (.resolve key)
  let files := Resolution.files resolutions
  if files.isEmpty then throw (.noCachedFiles key.display)
  for e in VirtualFile.entries root resolutions do
    let _ ← ofPart (.upsert e.path e.provider e.outcome)
  return VirtualFile.ofFiles root files

theorem session_revalidate (remote : String) (records : List Record) :
    (revalidate path key remote records).session relay =
      relay.revalidate path key remote records := by
  induction records with
  | nil => rfl
  | cons r rest ih =>
    rw [revalidate, session_bind, session_ofPart, Relay.revalidate]
    refine bind_congr fun isStale => ?_
    cases isStale with
    | false => exact ih
    | true =>
      change session relay (ofPart (.resolveProvider key r.provider) >>= _) = _
      rw [session_bind, session_ofPart]
      refine bind_congr fun outcome => ?_
      rw [session_bind, session_ofPart]
      refine bind_congr fun updated => ?_
      cases updated.toFile? with
      | none => exact ih
      | some file => rfl

theorem session_fileLink : (fileLink path key).session relay = relay.fileLink path key := by
  rw [fileLink, session_bind, session_ofPart]
  refine bind_congr fun records => ?_
  cases records.findSome? Record.toFile? with
  | none => exact session_revalidate relay path key _ records
  | some file => rfl

theorem session_refreshLink (dead : CachedFile) :
    (refreshLink path key dead).session relay = relay.refreshLink path key dead := by
  rw [refreshLink, session_bind, session_ofPart]
  refine bind_congr fun outcome => ?_
  rw [session_bind, session_ofPart]
  refine bind_congr fun updated => ?_
  generalize outcome.forFile dead.path = found, Record.toFile? updated = fresh
  cases found <;> cases fresh <;> exact session_bind relay _ _

theorem session_replaceLink (dead : CachedFile) :
    (replaceLink path key dead).session relay = relay.replaceLink path key dead := by
  rw [replaceLink, session_bind, session_ofPart]
  exact bind_congr fun _ => session_refreshLink relay path key dead

theorem run_session_send (p : Prepared) :
    Course.session relay ((supply path key).send p).run = ((relay.supply path key).send p).run := by
  change Course.session relay (ofPart (.send p)).run = _
  rw [run_session, session_ofPart]
  exact Session.attempt_talk _

theorem run_session_refresh (dead : CachedFile) :
    Course.session relay ((supply path key).refresh dead).run =
      ((relay.supply path key).refresh dead).run := by
  change Course.session relay (replaceLink path key dead).run = _
  rw [run_session, session_replaceLink]
  rfl

theorem session_next (stream : LinkStream) :
    (stream.next (supply path key)).session relay = stream.next (relay.supply path key) := by
  have hresume (s : LinkStream) :
      Course.session relay (s.resume (supply path key)).run =
        (s.resume (relay.supply path key)).run := by
    refine run_session_bind relay (run_session_refresh relay path key s.file) fun fresh => ?_
    refine run_session_bind relay (x := liftM (s.rest fresh)) ?_ fun prepared => ?_
    · cases s.rest fresh <;> rfl
    · exact run_session_bind relay (run_session_send relay path key prepared) fun r => rfl
  unfold LinkStream.next
  rcases stream.pull with ⟨f | chunk, s⟩
  · dsimp only
    split
    · rfl
    · rw [Course.session_bind, hresume]
      refine bind_congr fun r => ?_
      cases r <;> rfl
  · rfl

theorem session_openOver (range : Option RangeRequest) (file : CachedFile) :
    (openOver path key range file).session relay = relay.openOver path key range file := by
  rw [openOver, session_bind, session_ofExcept]
  refine bind_congr fun prepared => ?_
  rw [session_attempt]
  exact run_session_bind relay (run_session_send relay path key prepared) fun r => rfl

theorem session_openFresh (range : Option RangeRequest) (file : CachedFile) :
    (openFresh path key range file).session relay = relay.openFresh path key range file := by
  rw [openFresh, session_bind, session_openOver]
  refine bind_congr fun opened => ?_
  cases opened <;> rfl

theorem session_openStream (range : Option RangeRequest) :
    (openStream path key range).session relay = relay.openStream path key range := by
  have hreplaced (file : CachedFile) :
      (replaceLink path key file >>= openFresh path key range).session relay =
        relay.replaceLink path key file >>= relay.openFresh path key range := by
    rw [session_bind, session_replaceLink]
    exact bind_congr fun fresh => session_openFresh relay path key range fresh
  rw [openStream, session_bind, session_fileLink]
  refine bind_congr fun file => ?_
  rw [session_bind, session_attempt, run_session, session_ofPart]
  refine (congrArg (· >>= _) (Session.attempt_talk _)).trans (bind_congr fun alive => ?_)
  match alive with
  | .ok true =>
    refine (session_bind relay _ _).trans ?_
    rw [session_openOver]
    refine bind_congr fun opened => ?_
    cases opened with
    | ok stream => rfl
    | error f => exact hreplaced file
  | .ok false => exact hreplaced file
  | .error _ => exact hreplaced file

theorem session_addContent (root : String) :
    (addContent key root).session relay = relay.addContent key root := by
  rw [addContent, session_bind, session_ofPart]
  refine bind_congr fun resolutions => ?_
  have hrecord : (do
      for e in VirtualFile.entries root resolutions do
        let _ ← ofPart (.upsert e.path e.provider e.outcome)
      return VirtualFile.ofFiles root (Resolution.files resolutions) :
        Passage (List VirtualFile)).session relay = (do
      for e in VirtualFile.entries root resolutions do
        let _ ← Session.upsert e.path e.provider e.outcome
      return VirtualFile.ofFiles root (Resolution.files resolutions)) := by
    rw [session_bind, session_forIn]
    refine congrArg (· >>= _) (congrArg (forIn _ _) (funext₂ fun e _ => ?_))
    rw [session_bind, session_ofPart]
    rfl
  dsimp only
  split
  · rfl
  · exact hrecord

end Passage

inductive Landing where
  | nothing
  | opened (o : OpenStream)
  | read (number : Nat) (o : OpenStream)

def Errand.course (streams : List OpenStream) : Errand → Course Landing
  | .addContent key root => do
    let _ ← (Passage.addContent key root).run
    return .nothing
  | .fileLink path key => do
    let _ ← (Passage.fileLink path key).run
    return .nothing
  | .refreshLink path key dead => do
    let _ ← (Passage.refreshLink path key dead).run
    return .nothing
  | .openStream path key range => do
    match ← (Passage.openStream path key range).run with
    | .ok stream => return .opened ⟨path, key, stream⟩
    | .error _ => return .nothing
  | .next n =>
    match streams[n]? with
    | none => return .nothing
    | some o => do
      let (_, stream) ← o.stream.next (Passage.supply o.path o.key)
      return .read n { o with stream }
  | .deleteFile path => do
    let _ ← (Passage.ofPart (.deleteFile path)).run
    return .nothing
  | .upsert path provider outcome => do
    let _ ← (Passage.ofPart (.upsert path provider outcome)).run
    return .nothing

namespace Service

def land (s : Service) : Landing → Service
  | .nothing => s
  | .opened o => { s with streams := s.streams ++ [o] }
  | .read n o => { s with streams := s.streams.set n o }

def landed (s : Service) : Except Halt Landing × World → Service
  | (.ok landing, world) => { s with world }.land landing
  | (.error _, world) => { s with world }

@[simp]
theorem landed_world (s : Service) (r : Except Halt Landing × World) :
    (s.landed r).world = r.2 := by
  rcases r with ⟨halt | _ | _ | _, w⟩ <;> rfl

theorem landed_of_nothing {α : Type} (relay : Relay) (s : Service) (x : Passage α) :
    s.landed ((x.run >>= fun _ => pure .nothing : Course Landing).session relay s.world) =
      { s with world := (x.session relay s.world).2 } := by
  rw [Course.session_bind, Passage.run_session]
  rcases hx : x.session relay s.world with ⟨(f | _) | a, w⟩
  · rw [Session.bind_of_ok (Session.attempt_of_failure hx)]
    rfl
  · rw [Session.bind_of_error (Session.attempt_of_abandoned hx)]
    rfl
  · rw [Session.bind_of_ok (Session.attempt_of_ok hx)]
    rfl

/-- An errand whose parts are done one after another comes to what it comes to as a whole. -/
theorem serve_eq_landed (relay : Relay) (s : Service) (e : Errand) :
    s.serve relay e = s.landed ((e.course s.streams).session relay s.world) := by
  cases e with
  | addContent key root =>
    rw [Errand.course, landed_of_nothing, Passage.session_addContent]
    rfl
  | fileLink path key =>
    rw [Errand.course, landed_of_nothing, Passage.session_fileLink]
    rfl
  | refreshLink path key dead =>
    rw [Errand.course, landed_of_nothing, Passage.session_refreshLink]
    rfl
  | openStream path key range =>
    rw [Errand.course, Course.session_bind, Passage.run_session, Passage.session_openStream, serve]
    rcases hopen : relay.openStream path key range s.world with ⟨(f | _) | stream, w⟩
    · rw [Session.bind_of_ok (Session.attempt_of_failure hopen)]
      rfl
    · rw [Session.bind_of_error (Session.attempt_of_abandoned hopen)]
      rfl
    · rw [Session.bind_of_ok (Session.attempt_of_ok hopen)]
      rfl
  | next n =>
    rw [Errand.course, serve]
    cases s.streams[n]? with
    | none => rfl
    | some o =>
      dsimp only
      rw [Course.session_bind, Passage.session_next]
      rcases hnext : o.stream.next (relay.supply o.path o.key) s.world with ⟨halt | read, w⟩
      · rw [Session.bind_of_error hnext]
        rfl
      · rw [Session.bind_of_ok hnext]
        rfl
  | deleteFile path =>
    rw [Errand.course, landed_of_nothing, Passage.session_ofPart]
    rfl
  | upsert path provider outcome =>
    rw [Errand.course, landed_of_nothing, Passage.session_ofPart]
    rfl

end Service
end LinkRelay
