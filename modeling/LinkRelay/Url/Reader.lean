import LinkRelay.Url.Basic
import LinkRelay.Text.Blank
set_option autoImplicit false

/-!
# Reading URLs

A URL is read from its scheme on. Special schemes take backslashes for slashes, need a host and
always have a path. Without a scheme a text is read relative to a base, if there is one.
-/

namespace LinkRelay.Url

def isSchemeChar (c : Char) : Bool := c.isAlphanum || c == '+' || c == '-' || c == '.'

def takeScheme : List Char → Option (String × List Char)
  | c :: rest =>
    if c.isAlpha then
      match rest.dropWhile isSchemeChar with
      | ':' :: after =>
        some (String.ofList (Text.asciiLower (c :: rest.takeWhile isSchemeChar)), after)
      | _ => none
    else none
  | [] => none

def isSlash (special : Bool) (c : Char) : Bool := c == '/' || (special && c == '\\')

def endsPath (c : Char) : Bool := c == '?' || c == '#'

def upTo (p : Char → Bool) (s : List Char) : List Char × List Char :=
  (s.takeWhile fun c => !p c, s.dropWhile fun c => !p c)

def readEnd (special : Bool) (s : List Char) : Option String × Option String :=
  let fragmentOf : List Char → Option String
    | '#' :: f => some (String.ofList (Percent.encode Percent.inFragment f))
    | _ => none
  match s with
  | '?' :: rest =>
    let (query, after) := upTo (· == '#') rest
    (some (String.ofList (Percent.encode (Percent.inQuery special) query)), fragmentOf after)
  | _ => (none, fragmentOf s)

def pieces (special : Bool) : List Char → List (List Char)
  | [] => [[]]
  | c :: rest =>
    if isSlash special c then [] :: pieces special rest
    else match pieces special rest with
      | [] => [[c]]
      | piece :: more => (c :: piece) :: more

def isDot (s : List Char) : Bool := Text.asciiLower s ∈ [".".toList, "%2e".toList]

def isDotDot (s : List Char) : Bool :=
  Text.asciiLower s ∈ ["..".toList, ".%2e".toList, "%2e.".toList, "%2e%2e".toList]

/-- Walks pieces of a path, with the segments so far in reverse: one dot stays, two go back. -/
def walk : List String → List (List Char) → List String
  | done, [] => done.reverse
  | done, [piece] =>
    if isDotDot piece then ("" :: done.tail).reverse
    else if isDot piece then ("" :: done).reverse
    else (String.ofList (Percent.encode Percent.inPath piece) :: done).reverse
  | done, piece :: rest =>
    if isDotDot piece then walk done.tail rest
    else if isDot piece then walk done rest
    else walk (String.ofList (Percent.encode Percent.inPath piece) :: done) rest

def readPath (special : Bool) (below : List String) (s : List Char) : List String :=
  match s with
  | c :: rest =>
    if isSlash special c then walk below.reverse (pieces special rest)
    else walk below.reverse (pieces special s)
  | [] => walk below.reverse [[]]

def readUserInfo (special : Bool) (s : List Char) : Except UrlFault (String × String × List Char) :=
  let (authority, _) := upTo (fun c => isSlash special c || endsPath c) s
  match Text.splitLast '@' authority with
  | none => .ok ("", "", s)
  | some (info, _) =>
    let rest := s.drop (info.length + 1)
    let startsPath := rest.head?.map (fun c => isSlash special c || endsPath c)
    if info.isEmpty && startsPath == some true then .error .emptyHost
    else
      let escape (t : List Char) : String := String.ofList (Percent.encode Percent.inUserInfo t)
      match Text.splitFirst ':' info with
      | some (name, password) => .ok (escape name, escape password, rest)
      | none => .ok (escape info, "", rest)

def takeHost (special : Bool) : Bool → List Char → List Char × List Char
  | _, [] => ([], [])
  | inside, c :: rest =>
    if isSlash special c || endsPath c || (c == ':' && !inside) then ([], c :: rest)
    else
      let inside := if c == '[' then true else if c == ']' then false else inside
      let (host, after) := takeHost special inside rest
      (c :: host, after)

/-- A port after its colon: digits up to the path. The usual port counts as none. -/
def readPort (scheme : String) (s : List Char) : Except UrlFault (Option Nat × List Char) :=
  let (digits, rest) := upTo (fun c => !c.isDigit) s
  let n := digits.foldl (fun n c => n * 10 + Text.digitValue c) 0
  if 65535 < n then .error .invalidPort
  else
    match rest.head?.map (fun c => isSlash true c || endsPath c) with
    | some false => .error .invalidPort
    | _ => .ok (if digits.isEmpty || defaultPort? scheme == some n then none else some n, rest)

def readAuthority (rules : Domain.Rules) (scheme : String) (s : List Char) : Except UrlFault Url := do
  let special := isSpecialScheme scheme
  let (username, password, rest) ← readUserInfo special s
  let (hostText, rest) := takeHost special false rest
  if special && hostText.isEmpty then throw .emptyHost
  let host ← if special then Host.readSpecial rules hostText else Host.readPlain hostText
  if hostText.isEmpty && (rest.head? == some ':' || username != "" || password != "") then
    throw .emptyHost
  let (port, rest) ← match rest with
    | ':' :: after => readPort scheme after
    | _ => pure (none, rest)
  let (pathText, rest) := upTo endsPath rest
  let segments := if !special && pathText.isEmpty then [] else readPath special [] pathText
  let (query, fragment) := readEnd special rest
  return ⟨scheme, username, password, some host, port, .segments segments, query, fragment⟩

def readFile (rules : Domain.Rules) (s : List Char) : Except UrlFault Url := do
  let (pathAndHost, rest) := upTo endsPath s
  let (query, fragment) := readEnd true rest
  match pathAndHost with
  | a :: b :: after =>
    if isSlash true a && isSlash true b then
      let (hostText, pathText) := upTo (isSlash true) after
      let host ← if hostText.isEmpty then pure (.domain "") else Host.readSpecial rules hostText
      let host := if host = .domain "localhost" then .domain "" else host
      return ⟨"file", "", "", some host, none, .segments (readPath true [] pathText), query,
        fragment⟩
    else
      return ⟨"file", "", "", some (.domain ""), none, .segments (readPath true [] pathAndHost),
        query, fragment⟩
  | _ =>
    return ⟨"file", "", "", some (.domain ""), none, .segments (readPath true [] pathAndHost),
      query, fragment⟩

def readRelative (rules : Domain.Rules) (base : Url) (s : List Char) : Except UrlFault Url :=
  let special := base.isSpecial
  let (pathText, rest) := upTo endsPath s
  let (query, fragment) := readEnd special rest
  let names := match base.path with
    | .segments names => names
    | .flat _ => []
  match pathText with
  | [] =>
    if query.isSome then .ok { base with query, fragment }
    else .ok { base with fragment }
  | [c] =>
    if isSlash special c then
      .ok { base with path := .segments (readPath special [] pathText), query, fragment }
    else .ok { base with path := .segments (readPath special names.dropLast pathText), query, fragment }
  | c :: d :: after =>
    if isSlash special c && isSlash special d then
      readAuthority rules base.scheme
        ((if special then after.dropWhile (isSlash true) else after) ++ rest)
    else if isSlash special c then
      .ok { base with path := .segments (readPath special [] pathText), query, fragment }
    else .ok { base with path := .segments (readPath special names.dropLast pathText), query, fragment }

def readAfterScheme (rules : Domain.Rules) (base : Option Url) (scheme : String) (s : List Char) :
    Except UrlFault Url :=
  if scheme == "file" then readFile rules s
  else if isSpecialScheme scheme then
    let slashes := s.takeWhile (isSlash true)
    match base with
    | some base =>
      if slashes.length < 2 && base.scheme == scheme then readRelative rules base s
      else readAuthority rules scheme (s.drop slashes.length)
    | none => readAuthority rules scheme (s.drop slashes.length)
  else
    match s with
    | '/' :: '/' :: rest => readAuthority rules scheme rest
    | _ =>
      let (pathText, rest) := upTo endsPath s
      let (query, fragment) := readEnd false rest
      let path := match pathText with
        | '/' :: _ => UrlPath.segments (readPath false [] pathText)
        | _ => .flat (String.ofList (Percent.encode Percent.inControls pathText))
      .ok ⟨scheme, "", "", none, none, path, query, fragment⟩

/-- What is read of a text: controls and spaces at its ends, and line breaks and tabs anywhere,
    do not count. -/
def essence (s : String) : List Char :=
  (Text.strip (fun c => c.toNat ≤ 0x20) s.toList).filter fun c => !isIgnored c

def readWith (rules : Domain.Rules) (base : Option Url) (s : String) : Except UrlFault Url :=
  let text := essence s
  match takeScheme text with
  | some (scheme, rest) => readAfterScheme rules base scheme rest
  | none =>
    match base with
    | some base => if base.isFlat && text.head? != some '#' then .error .relative
      else readRelative rules base text
    | none => .error .relative

def read (rules : Domain.Rules) (s : String) : Except UrlFault Url := readWith rules none s

def join (rules : Domain.Rules) (u : Url) (reference : String) : Except UrlFault Url :=
  readWith rules (some u) reference

end LinkRelay.Url
