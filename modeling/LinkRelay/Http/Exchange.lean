import LinkRelay.Failure
import LinkRelay.Http.Message
import LinkRelay.Json.Reader
set_option autoImplicit false

/-!
# HTTP exchanges

The outside world is a wire: the replies that it will give, in order, and the requests that have
been made. `send` makes one exchange on it and follows redirections.
-/

namespace LinkRelay.Http

/-- What requests rely on beside their servers. -/
structure Platform where
  connects : Url → Bool
  domains : Domain.Rules
  decoders : Decoders

def Platform.common : Platform := ⟨fun _ => true, .common, fun _ => none⟩

/-- What answers requests. `none` among the replies closes a connection without an answer, and so
    does a wire that has run out of them. -/
structure Wire where
  replies : List (Option Reply)
  requests : List Request
  platform : Platform

abbrev OnWire := ExceptT Failure (StateM Wire)

namespace OnWire

variable {α β : Type} {t : OnWire α} {wire wire' : Wire}

theorem bind_of_ok {a : α} (h : t.run wire = (.ok a, wire')) (f : α → OnWire β) :
    (t >>= f).run wire = (f a).run wire' := by
  change (StateT.bind t (ExceptT.bindCont f)) wire = _
  rw [StateT.bind, show t wire = (.ok a, wire') from h]
  rfl

theorem bind_of_error {failure : Failure} (h : t.run wire = (.error failure, wire'))
    (f : α → OnWire β) : (t >>= f).run wire = (.error failure, wire') := by
  change (StateT.bind t (ExceptT.bindCont f)) wire = _
  rw [StateT.bind, show t wire = (.error failure, wire') from h]
  rfl

def platform : OnWire Platform := ExceptT.mk fun wire => (.ok wire.platform, wire)

theorem bind_platform (f : Platform → OnWire β) :
    (platform >>= f).run wire = (f wire.platform).run wire := rfl

end OnWire

structure Draft where
  method : Method
  address : String
  query : List (String × String)
  form : Option (List (String × String))
  login : Option (String × String)
  range : Option String

def Draft.get (address : String) : Draft := ⟨.get, address, [], none, none, none⟩

def loginOf (url : Url) : Option (String × Option String) := do
  let username ← Utf8.decode? (Percent.decode url.username.toList)
  let password := if url.password.isEmpty then none
    else Utf8.decode? (Percent.decode url.password.toList)
  if username.isEmpty && password.isNone then none else return (username, password)

structure Pending where
  method : Method
  url : Url
  range : Option String
  authorization : Option String
  body : String

def Draft.pending (domains : Domain.Rules) (d : Draft) : Except Failure Pending :=
  match Url.read domains d.address with
  | .error _ => .error (.network .unreadableUrl)
  | .ok url =>
    if !url.hasHost then .error (.network (.unsupportedUrl url.toText))
    else
      let login := loginOf url
      let url := if login.isSome then url.withoutUserInfo else url
      let url := if d.query.isEmpty then url else url.withQuery d.query
      let authorization := match login, d.login with
        | some (username, password), _ => some (basicAuthorization username password)
        | none, some (username, password) => some (basicAuthorization username (some password))
        | none, none => none
      .ok ⟨d.method, url, d.range, authorization, (d.form.map Percent.form).getD ""⟩

def isHttp (url : Url) : Bool := url.scheme == "http" || url.scheme == "https"

/-- Makes one request and takes the next reply. Nothing is sent where there is no connection. -/
def once (p : Pending) : OnWire Response := ExceptT.mk fun wire =>
  let noAnswer : Except Failure Response := .error (.network (.noAnswer p.url.toText))
  if !wire.platform.connects p.url then (noAnswer, wire)
  else
    let request : Request :=
      ⟨p.method, p.url.withoutFragment.withoutUserInfo, p.range, p.authorization, p.body⟩
    let requests := wire.requests ++ [request]
    match wire.replies with
    | some reply :: rest => (.ok (reply.arrive p.method), { wire with replies := rest, requests })
    | none :: rest => (noAnswer, { wire with replies := rest, requests })
    | [] => (noAnswer, { wire with requests })

def redirection? (domains : Domain.Rules) (p : Pending) (r : Response) : Option Url :=
  if [301, 302, 303, 307, 308].contains r.status then
    (r.header? "Location").bind fun location =>
      (p.url.join domains (String.ofList location)).toOption
  else none

/-- The request that follows a redirection. Credentials stay with their host; the older statuses
    turn what is neither GET nor HEAD into a GET without a body. -/
def Pending.follow (p : Pending) (status : Nat) (target : Url) : Pending :=
  let sameHost := target.host == p.url.host && target.effectivePort == p.url.effectivePort
  let p := { p with url := target
                    authorization := if sameHost then p.authorization else none }
  if [301, 302, 303].contains status && p.method == .post then
    { p with method := .get, body := "" }
  else p

def follow (domains : Domain.Rules) : Nat → Pending → OnWire Response
  | left, p => do
    let r ← once p
    match redirection? domains p r with
    | none => return r
    | some target =>
      match left with
      | 0 => throw (.network (.endlessRedirect p.url.toText))
      | left + 1 =>
        if isHttp target then follow domains left (p.follow r.status target)
        else throw (.network (.unsupportedUrl target.toText))

def send (d : Draft) : OnWire Response := do
  let platform ← OnWire.platform
  let p ← d.pending platform.domains
  if isHttp p.url then follow platform.domains 10 p
  else throw (.network (.unsupportedUrl p.url.toText))

def maxErrorBody : Nat := 512

/-- An error's text, or its start, cut between characters, if it is too long. -/
def cutErrorBody (text : String) : String :=
  let bytes := Utf8.encode text
  if bytes.length ≤ maxErrorBody then text
  else Utf8.decodeLossy (bytes.take (Utf8.boundaryUpTo bytes maxErrorBody))

def checkStatus (decoders : Decoders) (endpoint : String) (r : Response) :
    Except Failure Response :=
  if r.isSuccess then .ok r
  else .error (.ofStatus r.status endpoint (cutErrorBody (r.text decoders)))

def jsonBody {α : Type} (read : Json → Option α) (r : Response) : Except Failure α :=
  match (if r.broken then none else Json.ofBytes? r.body).bind read with
  | some a => .ok a
  | none => .error (.parse .response)

def ask {α : Type} (endpoint : String) (read : Json → Option α) (d : Draft) : OnWire α := do
  let platform ← OnWire.platform
  let r ← checkStatus platform.decoders endpoint (← send d)
  jsonBody read r

end LinkRelay.Http
