import LinkRelay.Resolve.Resolver
import LinkRelay.Stream.LinkStream
import LinkRelay.VirtualFile
set_option autoImplicit false

/-!
# The relay

Adding content makes virtual files of what providers hold; serving a virtual file picks a live
link from its records, and gets a fresh one when the provider has changed it. Every outcome on
the way is recorded.
-/

namespace LinkRelay

structure Relay where
  policy : RetryPolicy

namespace Relay

/-- Resolves a key and makes a virtual file for each path that some provider has cached. -/
def addContent (relay : Relay) (key : Key) (root : String) : Session (List VirtualFile) := do
  let resolutions ← relay.policy.resolve key
  let files := Resolution.files resolutions
  if files.isEmpty then Session.fail (.noCachedFiles key.display)
  for e in VirtualFile.entries root resolutions do
    let _ ← Session.upsert e.path e.provider e.outcome
  return VirtualFile.ofFiles root files

/-- Asks again about each record that is stale, until a provider has the file. -/
def revalidate (relay : Relay) (path : String) (key : Key) (remote : String) :
    List Record → Session CachedFile
  | [] => Session.fail (.noLiveLink path)
  | r :: rest => do
    if ← Session.isStale r then
      let outcome ← relay.policy.resolveProvider key r.provider
      let updated ← Session.upsert path r.provider (outcome.forFile remote)
      match updated.toFile? with
      | some file => return file
      | none => revalidate relay path key remote rest
    else revalidate relay path key remote rest

/-- The file of the first record that has one; without any, stale records are asked about again. -/
def fileLink (relay : Relay) (path : String) (key : Key) : Session CachedFile := do
  let records ← Session.records path
  match records.findSome? Record.toFile? with
  | some file => return file
  | none =>
    let remote := (records.findSome? (·.remotePath)).getD (VirtualFile.fileName path)
    relay.revalidate path key remote records

/-- Asks a dead file's provider for a fresh link, and records the answer. -/
def refreshLink (relay : Relay) (path : String) (key : Key) (dead : CachedFile) :
    Session CachedFile := do
  let outcome := (← relay.policy.refreshFile key dead).forFile dead.path
  let updated ← Session.upsert path dead.provider outcome
  match outcome, updated.toFile? with
  | .cached _, some fresh =>
    Session.count (.linkRefreshed dead.provider true)
    return fresh
  | _, _ =>
    Session.count (.linkRefreshed dead.provider false)
    Session.fail (.noLiveLink path)

def replaceLink (relay : Relay) (path : String) (key : Key) (dead : CachedFile) :
    Session CachedFile := do
  Session.count (.deadLink dead.provider)
  relay.refreshLink path key dead

/-- What the streams of a virtual file need: a fresh link is recorded for later readers too. -/
def supply (relay : Relay) (path : String) (key : Key) : Supply Session where
  send p := ExceptT.mk (Session.talk p.send)
  refresh dead := Session.attempt (relay.replaceLink path key dead)

def openOver (relay : Relay) (path : String) (key : Key) (range : Option RangeRequest)
    (file : CachedFile) : Session (Except Failure LinkStream) := do
  let prepared ← Session.ofExcept (Prepared.ofRange file range)
  (LinkStream.start (relay.supply path key) file prepared).run

def openFresh (relay : Relay) (path : String) (key : Key) (range : Option RangeRequest)
    (file : CachedFile) : Session LinkStream := do
  match ← relay.openOver path key range file with
  | .ok stream => return stream
  | .error _ => Session.fail (.noLiveLink path)

/-- Opens a stream for a virtual file. A link that is found dead, by a probe or by the request
    itself, is refreshed once. -/
def openStream (relay : Relay) (path : String) (key : Key) (range : Option RangeRequest) :
    Session LinkStream := do
  let file ← relay.fileLink path key
  match ← Session.talk (isLinkAlive file.link) with
  | .ok true =>
    match ← relay.openOver path key range file with
    | .ok stream => return stream
    | .error _ => relay.openFresh path key range (← relay.replaceLink path key file)
  | _ => relay.openFresh path key range (← relay.replaceLink path key file)

def deleteFile (_relay : Relay) (path : String) : Session Bool := Session.deleteFile path

end Relay
end LinkRelay
