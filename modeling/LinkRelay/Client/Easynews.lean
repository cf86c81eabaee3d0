import LinkRelay.CachedFile
import LinkRelay.Client.Premiumize
import LinkRelay.Text.Alphanumeric
import LinkRelay.Text.Lowercase
set_option autoImplicit false

/-!
# Easynews

Usenet releases by name. The service answers a search; of the posts whose name is the release's
when case and separators do not count, the largest is the file, the first of several as large.
Links are built from what the search said, without asking again.
-/

namespace LinkRelay

structure Easynews where
  baseUrl : String
  username : String
  password : String
  domains : Domain.Rules

namespace Easynews

def search : String := "/2.0/search/solr-search/"

structure Post where
  hash : String
  extension : String
  filename : String
  size : Nat
  deriving DecidableEq

structure Found where
  posts : List Post
  farm : Option String
  port : Option Nat

def readPost (v : Json) : Option Post := do
  let f ← v.fields? ["0", "2", "10", "rawSize"] false
  return ⟨← f.required "0" Json.text?, ← f.required "2" Json.text?, ← f.required "10" Json.text?,
    ← f.required "rawSize" Json.u64?⟩

def readFound (v : Json) : Option Found := do
  let f ← v.fields? ["data", "dlFarm", "dlPort"] false
  return {
    posts := ← f.withDefault "data" [] fun v => v.list?.bind (·.mapM readPost)
    farm := ← f.withDefault "dlFarm" none (Json.Fields.orNull Json.text?)
    port := ← f.withDefault "dlPort" none (Json.Fields.orNull (Json.natUpTo? 65535)) }

def normalize (name : String) : List Char :=
  (name.toList.filter Text.isAlphanumeric).flatMap Text.lowercaseChar

def select (release : String) (posts : List Post) : List Post :=
  (posts.filter fun p => normalize p.filename == normalize release).mergeSort
    fun a b => b.size ≤ a.size

def searchDraft (c : Easynews) (release : String) : Http.Draft :=
  { Http.Draft.get (c.baseUrl ++ search) with
    login := some (c.username, c.password)
    query := [("gps", release), ("fty[]", "VIDEO"), ("s1", "dsize"), ("s1d", "-"), ("pby", "20"),
      ("pno", "1"), ("sS", "5"), ("u", "1")] }

def find (c : Easynews) (release : String) : Http.OnWire Found := do
  let found ← Http.ask search readFound (c.searchDraft release)
  return { found with posts := select release found.posts }

def linkSegments (hash extension filename : String) (server : Option (String × String)) :
    List String :=
  ["dl"] ++ (match server with
    | some (farm, port) => [farm, port]
    | none => []) ++ [hash ++ extension, filename ++ extension]

def parameter (file : CachedFile) (name : String) : Except Failure String :=
  match file.params.get? name with
  | some value => .ok value
  | none => .error (.parse (.missingParameter file.path name))

def downloadLink (c : Easynews) (file : CachedFile) : Except Failure String := do
  let hash ← parameter file "hash"
  let extension ← parameter file "ext"
  let filename ← parameter file "filename"
  let url ← (Url.read c.domains c.baseUrl).mapError fun fault => .config (.linkBaseUrl fault)
  let some url := url.withLogin? c.username c.password | throw (.config .linkLogin)
  let server := do return (← file.params.get? "farm", ← file.params.get? "port")
  let some url := url.withSegments? (linkSegments hash extension filename server)
    | throw (.config .linkPath)
  return url.toText

def paramsOf (post : Post) (found : Found) : Dictionary String :=
  let own := [("hash", post.hash), ("ext", post.extension), ("filename", post.filename)]
  .ofList (match found.farm, found.port with
    | some farm, some port => own ++ [("farm", farm), ("port", toString port)]
    | _, _ => own)

def fileOf (c : Easynews) (now : Time) (post : Post) (found : Found) :
    Except Failure CachedFile := do
  let path := post.filename ++ post.extension
  let file : CachedFile :=
    { path, size := post.size, mimeType := MediaType.ofPath? path, link := "",
      provider := .easynews, lastChecked := now, params := paramsOf post found }
  return { file with link := ← c.downloadLink file }

def isCached (c : Easynews) : Key → Http.OnWire Bool
  | .usenet release => do return !(← c.find release).posts.isEmpty
  | .torrent .. => return false

def files (c : Easynews) (now : Time) : Key → Http.OnWire (List CachedFile)
  | .usenet release => do
    let found ← c.find release
    match found.posts with
    | post :: _ => return [← c.fileOf now post found]
    | [] => return []
  | .torrent .. => return []

def link (c : Easynews) (file : CachedFile) : Key → Http.OnWire (Option String)
  | .usenet _ => do return some (← c.downloadLink file)
  | .torrent .. => return none

end Easynews
end LinkRelay
