import LinkRelay.CachedFile
import LinkRelay.Client.MediaType
import LinkRelay.Http.Exchange
import LinkRelay.Json.Shape
import LinkRelay.Key
set_option autoImplicit false

/-!
# Premiumize

Torrents by info hash. The service answers one question about its cache and one that lists files
with fresh links; a failure that it reports in a successful response is the request's fault.
-/

namespace LinkRelay

structure Premiumize where
  baseUrl : String
  apiKey : String

namespace Premiumize

def cacheCheck : String := "/cache/check"

def directDownload : String := "/transfer/directdl"

structure Entry where
  path : String
  size : Nat
  link : String

structure Report (α : Type) where
  status : String
  content : List α
  message : Option String

def readReport {α : Type} (contentName : String) (readItem : Json → Option α) (v : Json) :
    Option (Report α) := do
  let f ← v.fields? ["status", contentName, "message"] false
  return {
    status := ← f.required "status" Json.text?
    content := ← f.withDefault contentName [] fun v => v.list?.bind (·.mapM readItem)
    message := ← f.withDefault "message" none (Json.Fields.orNull Json.text?) }

def readEntry (v : Json) : Option Entry := do
  let f ← v.fields? ["path", "size", "link"] false
  return ⟨← f.required "path" Json.text?, ← f.required "size" Json.u64?,
    ← f.required "link" Json.text?⟩

def Report.accept {α : Type} (report : Report α) (endpoint : String) : Except Failure (List α) :=
  if report.status == "success" then .ok report.content
  else .error (.status .client 200 endpoint (report.message.getD "status=error"))

def cacheCheckDraft (c : Premiumize) (hash : String) : Http.Draft :=
  { Http.Draft.get (c.baseUrl ++ cacheCheck) with
    query := [("items[]", hash), ("apikey", c.apiKey)] }

def downloadDraft (c : Premiumize) (magnet : String) : Http.Draft :=
  { Http.Draft.get (c.baseUrl ++ directDownload) with
    method := .post
    query := [("apikey", c.apiKey)]
    form := some [("src", magnet)] }

def isCached (c : Premiumize) : Key → Http.OnWire Bool
  | .torrent hash _ => do
    let report ← Http.ask cacheCheck (readReport "response" Json.bool?) (c.cacheCheckDraft hash)
    let found ← report.accept cacheCheck
    return found.head?.getD false
  | .usenet _ => return false

def entries (c : Premiumize) (magnet : String) : Http.OnWire (List Entry) := do
  let report ← Http.ask directDownload (readReport "content" readEntry) (c.downloadDraft magnet)
  report.accept directDownload

def fileOf (now : Time) (e : Entry) : CachedFile where
  path := e.path
  size := e.size
  mimeType := MediaType.ofPath? e.path
  link := e.link
  provider := .premiumize
  lastChecked := now
  params := .empty

def files (c : Premiumize) (moments : Nat → Time) : Key → Http.OnWire (List CachedFile)
  | .torrent _ magnet => do return (← c.entries magnet).mapIdx fun i e => fileOf (moments i) e
  | .usenet _ => return []

def link (c : Premiumize) (file : CachedFile) : Key → Http.OnWire (Option String)
  | .torrent _ magnet => do
    return ((← c.entries magnet).find? fun e => e.path == file.path).map (·.link)
  | .usenet _ => return none

end Premiumize
end LinkRelay
