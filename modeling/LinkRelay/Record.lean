import LinkRelay.CachedFile
set_option autoImplicit false

/-!
# Records

A virtual file keeps one record per provider: what the provider last said about the file, and
when. A record that says `cached` can be turned back into the file.
-/

namespace LinkRelay

inductive FileState where
  | cached
  | missing
  | failed (trouble : Trouble)
  deriving DecidableEq, Repr

namespace FileState

def name : FileState → String
  | .cached => "cached"
  | .missing => "missing"
  | .failed trouble => trouble.label

def all : List FileState :=
  [.cached, .missing, .failed .provider, .failed .client, .failed .network]

def ofName? (s : String) : Option FileState := all.find? fun state => state.name == s

theorem ofName?_name (state : FileState) : ofName? state.name = some state := by
  rcases state with _ | _ | trouble
  · rfl
  · rfl
  · cases trouble <;> rfl

end FileState

def FileOutcome.state : FileOutcome → FileState
  | .cached _ => .cached
  | .missing => .missing
  | .failed trouble => .failed trouble

structure Record where
  provider : Provider
  state : FileState
  lastChecked : Time
  link : Option String
  size : Option Nat
  mimeType : Option String
  remotePath : Option String
  params : Dictionary String

namespace Record

/-- The record of an outcome observed at a moment. What is known about the file outlives an
    outcome without one; a link does not. -/
def ofOutcome (provider : Provider) (outcome : FileOutcome) (at_ : Time)
    (previous : Option Record) : Record :=
  match outcome with
  | .cached file =>
    { provider, state := .cached, lastChecked := at_, link := some file.link,
      size := some file.size, mimeType := file.mimeType, remotePath := some file.path,
      params := file.params }
  | other =>
    { provider, state := other.state, lastChecked := at_, link := none,
      size := previous.bind (·.size), mimeType := previous.bind (·.mimeType),
      remotePath := previous.bind (·.remotePath),
      params := (previous.map (·.params)).getD .empty }

def toFile? (r : Record) : Option CachedFile :=
  match r.state, r.size, r.link with
  | .cached, some size, some link => some
    { path := r.remotePath.getD "", size, mimeType := r.mimeType, link, provider := r.provider,
      lastChecked := r.lastChecked, params := r.params }
  | _, _, _ => none

def isConsistent (r : Record) : Bool :=
  r.state ≠ .cached ∨ (r.link.isSome ∧ r.size.isSome)

/-- What an inconsistent record becomes when it is loaded: a provider error of long ago, with all
    else that is known about the file. -/
def demote (r : Record) : Record :=
  if r.isConsistent then r
  else { r with state := .failed .provider, link := none, lastChecked := 0 }

end Record
end LinkRelay
