import LinkRelay.Text.Base64
import LinkRelay.Text.Blank
import LinkRelay.Text.Document
import LinkRelay.Url.Reader
set_option autoImplicit false

/-!
# HTTP messages

A request as it goes over the wire, a reply as a server sends it, and the response that arrives
of a reply: its body in chunks, and whether it broke off before its announced end.
-/

namespace LinkRelay

namespace Http

inductive Method where
  | get
  | head
  | post
  deriving DecidableEq, Repr

def Method.name : Method → String
  | .get => "GET"
  | .head => "HEAD"
  | .post => "POST"

structure Request where
  method : Method
  url : Url
  range : Option String
  authorization : Option String
  body : String

/-- How the end of a body is told: by a length, by the end of the connection, or by an empty
    chunk, which may be missing. -/
inductive Framing where
  | length (announced : Nat)
  | close
  | chunked (complete : Bool)
  deriving DecidableEq, Repr

structure Reply where
  status : Nat
  headers : List (String × String)
  body : Bytes
  framing : Framing

/-- The decoder for a content type, if its charset is a known one beside UTF-8. -/
abbrev Decoders := String → Option (Bytes → String)

structure Response where
  status : Nat
  headers : List (String × String)
  chunks : List Bytes
  broken : Bool

/-- What arrives of a reply. Some replies have no body, whatever their headers announce. -/
def Reply.arrive (reply : Reply) (method : Method) : Response :=
  let bodiless := method == .head || reply.status == 204 || reply.status == 304
  let whole : Bytes := if bodiless then [] else
    match reply.framing with
    | .length n => reply.body.take n
    | _ => reply.body
  let broken := !bodiless && match reply.framing with
    | .length n => reply.body.length < n
    | .close => false
    | .chunked complete => !complete
  ⟨reply.status, reply.headers, if whole.isEmpty then [] else [whole], broken⟩

namespace Response

def isSuccess (r : Response) : Bool := 200 ≤ r.status && r.status < 300

def body (r : Response) : Bytes := r.chunks.flatten

def trimGap (s : String) : List Char := Text.strip (fun c => c == ' ' || c == '\t') s.toList

def header? (r : Response) (name : String) : Option (List Char) :=
  let wanted := Text.asciiLower name.toList
  (r.headers.find? fun h => Text.asciiLower h.1.toList == wanted).map fun h => trimGap h.2

def textHeader? (r : Response) (name : String) : Option String :=
  (r.header? name).bind fun value =>
    if value.all fun c => (0x20 ≤ c.toNat && c.toNat < 0x7F) || c == '\t' then
      some (String.ofList value)
    else none

/-- The body as text; one that broke off counts as empty. -/
def text (decoders : Decoders) (r : Response) : String :=
  if r.broken then ""
  else match (r.textHeader? "Content-Type").bind decoders with
    | some decode => decode r.body
    | none => Text.ofDocument r.body

end Response

def basicAuthorization (username : String) (password : Option String) : String :=
  "Basic " ++ String.ofList (Base64.encode (Utf8.encode (username ++ ":" ++ password.getD "")))

end Http
end LinkRelay
