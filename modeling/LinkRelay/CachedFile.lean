import LinkRelay.Dictionary
import LinkRelay.Provider
import LinkRelay.Failure
set_option autoImplicit false

/-!
# Cached files and outcomes

What a provider answers about content: the files it holds, or why it gave none. A file's identity
is its path, its size and its provider; its link may change at any time.
-/

namespace LinkRelay

/-- A moment of the calendar clock, in nanoseconds since 1970. -/
abbrev Time := Int

def Time.ofSeconds (s : Int) : Time := s * 1000000000

structure CachedFile where
  path : String
  size : Nat
  mimeType : Option String
  link : String
  provider : Provider
  lastChecked : Time
  params : Dictionary String

namespace CachedFile

/-- Whether two files are the same file, whatever their links. -/
def same (a b : CachedFile) : Bool := a.path = b.path ∧ a.size = b.size ∧ a.provider = b.provider

def distinct (files : List CachedFile) : List CachedFile :=
  (files.foldl (fun kept f => if kept.any (same f) then kept else f :: kept) []).reverse

end CachedFile

inductive Trouble where
  | client
  | network
  | provider
  deriving DecidableEq, Repr

inductive Outcome where
  | cached (files : List CachedFile)
  | notCached
  | failed (trouble : Trouble)

inductive FileOutcome where
  | cached (file : CachedFile)
  | missing
  | failed (trouble : Trouble)

def Trouble.label : Trouble → String
  | .client => "client_error"
  | .network => "network_error"
  | .provider => "provider_error"

def Trouble.ofFailure : Failure → Trouble
  | .status .client .. => .client
  | .network _ => .network
  | _ => .provider

namespace Outcome

def label : Outcome → String
  | .cached _ => "cached"
  | .notCached => "not_cached"
  | .failed trouble => trouble.label

def isCached : Outcome → Bool
  | .cached _ => true
  | _ => false

def files : Outcome → List CachedFile
  | .cached files => files
  | _ => []

def forFile (path : String) : Outcome → FileOutcome
  | .cached files =>
    match files.find? fun f => f.path == path with
    | some file => .cached file
    | none => .missing
  | .notCached => .missing
  | .failed trouble => .failed trouble

def ofFailure (f : Failure) : Outcome := .failed (.ofFailure f)

end Outcome

structure Resolution where
  provider : Provider
  outcome : Outcome

def Resolution.files (resolutions : List Resolution) : List CachedFile :=
  CachedFile.distinct (resolutions.flatMap fun r => r.outcome.files)

end LinkRelay
