import LinkRelay.Url.Host
set_option autoImplicit false

/-!
# URLs

A URL in its parts, each part already escaped, and its one written form. Parts are changed
through the functions here, which escape what they are given.
-/

namespace LinkRelay

/-- A path without a hierarchy, or segments each of which a slash precedes. -/
inductive UrlPath where
  | flat (text : String)
  | segments (names : List String)
  deriving DecidableEq, Repr

structure Url where
  scheme : String
  username : String
  password : String
  host : Option Host
  port : Option Nat
  path : UrlPath
  query : Option String
  fragment : Option String
  deriving DecidableEq, Repr

namespace Url

def defaultPort? : String → Option Nat
  | "http" | "ws" => some 80
  | "https" | "wss" => some 443
  | "ftp" => some 21
  | _ => none

def isSpecialScheme (scheme : String) : Bool := scheme == "file" || (defaultPort? scheme).isSome

def isSpecial (u : Url) : Bool := isSpecialScheme u.scheme

def isFlat (u : Url) : Bool :=
  match u.path with
  | .flat _ => true
  | .segments _ => false

def hasHost (u : Url) : Bool := u.host.isSome && u.host != some (.domain "")

def userInfo (u : Url) : String :=
  if u.username.isEmpty && u.password.isEmpty then ""
  else if u.password.isEmpty then u.username ++ "@"
  else u.username ++ ":" ++ u.password ++ "@"

def authority (u : Url) : String :=
  match u.host with
  | some host =>
    "//" ++ u.userInfo ++ host.toText ++ (u.port.map fun p => s!":{p}").getD ""
  | none =>
    match u.path with
    | .segments ("" :: _ :: _) => "/."
    | _ => ""

def pathText (u : Url) : String :=
  match u.path with
  | .flat text => text
  | .segments names => String.join (names.map ("/" ++ ·))

def toText (u : Url) : String :=
  u.scheme ++ ":" ++ u.authority ++ u.pathText ++ (u.query.map ("?" ++ ·)).getD "" ++
    (u.fragment.map ("#" ++ ·)).getD ""

def withoutUserInfo (u : Url) : Url := { u with username := "", password := "" }

def withoutFragment (u : Url) : Url := { u with fragment := none }

def effectivePort (u : Url) : Option Nat := u.port <|> defaultPort? u.scheme

/-- Sets name and password, which a URL can carry before a host only. -/
def withLogin? (u : Url) (username password : String) : Option Url :=
  if !u.hasHost || u.scheme == "file" then none
  else
    let escape (s : String) : String := String.ofList (Percent.encode Percent.inUserInfo s.toList)
    some { u with username := escape username, password := escape password }

def isIgnored (c : Char) : Bool := c == '\t' || c == '\n' || c == '\r'

/-- Adds a segment to the end of a path. `.` and `..` add nothing; in a path that is a slash
    alone the segment takes the place after it. -/
def pushSegment (special : Bool) (names : List String) (segment : String) : List String :=
  if segment == "." || segment == ".." then names
  else
    let plain := segment.toList.filter fun c => !isIgnored c
    let names := if names == [""] then [] else names
    if plain == "..".toList then names.dropLast ++ [""]
    else if plain == ".".toList then names ++ [""]
    else names ++ [String.ofList (Percent.encode (Percent.inSegment special) plain)]

def popEmpty (names : List String) : List String :=
  if 1 < names.length && names.getLast? == some "" then names.dropLast else names

def withSegments? (u : Url) (segments : List String) : Option Url :=
  match u.path with
  | .flat _ => none
  | .segments names =>
    some { u with path := .segments (segments.foldl (pushSegment u.isSpecial) (popEmpty names)) }

def withQuery (u : Url) (pairs : List (String × String)) : Url :=
  match u.query with
  | some query =>
    if query.isEmpty then { u with query := some (Percent.form pairs) }
    else { u with query := some (query ++ "&" ++ Percent.form pairs) }
  | none => { u with query := some (Percent.form pairs) }

end Url
end LinkRelay
