import LinkRelay.Client.Easynews
import LinkRelay.Config.Basic
set_option autoImplicit false

/-!
# Clients

A client answers three questions about content: whether it is cached, which files there are, and
what a fresh link to one of them is. Beside the services' own clients there is one that answers
from a script, after a delay, and keeps count of the questions.
-/

namespace LinkRelay

inductive Question where
  | isCached (key : Key)
  | files (key : Key)
  | link (key : Key) (file : CachedFile)

abbrev Question.Answer : Question → Type
  | .isCached _ => Bool
  | .files _ => List CachedFile
  | .link .. => Option String

/-- How often an answer takes the time: each file that is listed has a moment of its own. -/
def Question.readings : (q : Question) → Except Failure q.Answer → Nat
  | .files _, .ok listed => listed.length
  | _, _ => 0

/-- A client that gives the next of some prepared answers, after the next of some delays, and then
    always the same. -/
structure Script where
  provider : Provider
  kind : Kind
  answers : List (Except Failure Bool)
  fallback : Except Failure Bool
  listings : List (Except Failure (List CachedFile))
  files : Except Failure (List CachedFile)
  links : List (Except Failure (Option String)) := []
  link : Except Failure (Option String)
  delays : List Nat := []
  delayMs : Nat
  asked : Nat × Nat × Nat

namespace Script

def count (asked : Nat × Nat × Nat) : Question → Nat × Nat × Nat
  | .isCached _ => (asked.1 + 1, asked.2.1, asked.2.2)
  | .files _ => (asked.1, asked.2.1 + 1, asked.2.2)
  | .link .. => (asked.1, asked.2.1, asked.2.2 + 1)

def tally (s : Script) (q : Question) : Script :=
  { s with asked := count s.asked q, delays := s.delays.tail }

def answer (s : Script) : (q : Question) → Except Failure q.Answer × Script
  | .isCached _ =>
    match s.answers with
    | a :: rest => (a, { s with answers := rest })
    | [] => (s.fallback, s)
  | .files _ =>
    match s.listings with
    | a :: rest => (a, { s with listings := rest })
    | [] => (s.files, s)
  | .link .. =>
    match s.links with
    | a :: rest => (a, { s with links := rest })
    | [] => (s.link, s)

end Script

inductive Client where
  | premiumize (service : Premiumize)
  | easynews (service : Easynews)
  | scripted (script : Script)

namespace Client

def provider : Client → Provider
  | .premiumize _ => .premiumize
  | .easynews _ => .easynews
  | .scripted s => s.provider

def kind : Client → Kind
  | .premiumize _ => .torrent
  | .easynews _ => .usenet
  | .scripted s => s.kind

def supports (c : Client) (kind : Kind) : Bool := c.kind = kind

def delay : Client → Nat
  | .scripted s => s.delays.head?.getD s.delayMs
  | _ => 0

def noted (c : Client) (q : Question) : Client :=
  match c with
  | .scripted s => .scripted (s.tally q)
  | other => other

def answer (c : Client) (moments : Nat → Time) (wire : Http.Wire) :
    (q : Question) → Except Failure q.Answer × Client × Http.Wire
  | .isCached key =>
    match c with
    | .premiumize s => let (a, wire) := (s.isCached key).run wire; (a, c, wire)
    | .easynews s => let (a, wire) := (s.isCached key).run wire; (a, c, wire)
    | .scripted s => let (a, s) := s.answer (.isCached key); (a, .scripted s, wire)
  | .files key =>
    match c with
    | .premiumize s => let (a, wire) := (s.files moments key).run wire; (a, c, wire)
    | .easynews s => let (a, wire) := (s.files (moments 0) key).run wire; (a, c, wire)
    | .scripted s => let (a, s) := s.answer (.files key); (a, .scripted s, wire)
  | .link key file =>
    match c with
    | .premiumize s => let (a, wire) := (s.link file key).run wire; (a, c, wire)
    | .easynews s => let (a, wire) := (s.link file key).run wire; (a, c, wire)
    | .scripted s => let (a, s) := s.answer (.link key file); (a, .scripted s, wire)

def trimSlashes (address : String) : String :=
  String.ofList (Text.dropRight (· == '/') address.toList)

def ofConfig (domains : Domain.Rules) (p : ProviderConfig) : Client :=
  let baseUrl := trimSlashes p.baseUrlOrPublic
  match p.kind with
  | .premiumize => .premiumize ⟨baseUrl, p.apiKey.getD ""⟩
  | .easynews => .easynews ⟨baseUrl, p.username.getD "", p.password.getD "", domains⟩

def allOfConfig (domains : Domain.Rules) (c : Config) : List Client :=
  c.enabled.map (ofConfig domains)

end Client
end LinkRelay
