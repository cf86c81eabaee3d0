import LinkRelay.Failure
import LinkRelay.Json.Value
import LinkRelay.Text.Blank
set_option autoImplicit false

/-!
# Content keys

A torrent is known by its info hash, a usenet release by its name. A torrent's key keeps the
magnet it was read from, but two keys are the same when kind and identifier agree.
-/

namespace LinkRelay

inductive Key where
  | torrent (hash magnet : String)
  | usenet (release : String)
  deriving DecidableEq, Repr, Inhabited

namespace Key

def kind : Key → Kind
  | .torrent .. => .torrent
  | .usenet _ => .usenet

def id : Key → String
  | .torrent hash _ => hash
  | .usenet release => release

def same (a b : Key) : Bool := a.kind = b.kind ∧ a.id = b.id

/-- Feeds a key to a hasher, which has a step for kinds and one for texts. -/
def feed {σ : Type} (kind : Kind → σ → σ) (text : String → σ → σ) (k : Key) (state : σ) : σ :=
  text k.id (kind k.kind state)

def display : Key → String
  | .torrent hash _ => "magnet:" ++ hash
  | .usenet release => "usenet:" ++ release

def isBase32 (c : Char) : Bool := ('a' ≤ c && c ≤ 'z') || ('2' ≤ c && c ≤ '7')

def isInfoHash (hash : List Char) : Bool :=
  (hash.length == 40 && hash.all Text.isHexDigit) || (hash.length == 32 && hash.all isBase32)

def topicHash? (parameter : List Char) : Option (List Char) := do
  let (name, value) ← Text.splitFirst '=' parameter
  if name = "xt".toList then Text.after? "urn:btih:".toList (Text.asciiLower value) else none

/-- Reads a magnet link. The first parameter that names an info hash decides. -/
def ofMagnet (magnet : String) : Except Failure Key := do
  let some query := Text.after? "magnet:?".toList (Text.trim magnet.toList)
    | throw (.parse (.notMagnet magnet))
  let some hash := (Text.splitAll '&' query).findSome? topicHash?
    | throw (.parse (.noInfoHash magnet))
  if isInfoHash hash then return .torrent (String.ofList hash) magnet
  else throw (.parse (.invalidInfoHash (String.ofList hash)))

def ofRelease (release : String) : Except Failure Key :=
  if Text.blank release then .error (.parse .blankRelease) else .ok (.usenet release)

def toJson : Key → Json
  | .torrent hash magnet => .record
    [("type", .str "torrent_magnet"), ("hash", .str hash), ("raw_magnet", .str magnet)]
  | .usenet release => .record [("type", .str "usenet_release"), ("release_name", .str release)]

/-- Reads the written form of a key without looking into its texts. Instead of an object a list
    may give the type and then the fields in order. -/
def ofJson? : Json → Option Key
  | .list [.text (some "torrent_magnet"), .text (some hash), .text (some magnet)] =>
    some (.torrent hash magnet)
  | .list [.text (some "usenet_release"), .text (some release)] => some (.usenet release)
  | v => do
    match ← (← v.member? "type").text? with
    | "torrent_magnet" =>
      return .torrent (← (← v.member? "hash").text?) (← (← v.member? "raw_magnet").text?)
    | "usenet_release" => return .usenet (← (← v.member? "release_name").text?)
    | _ => none

end Key
end LinkRelay
