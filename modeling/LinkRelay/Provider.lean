set_option autoImplicit false

/-!
# Providers and kinds of content
-/

namespace LinkRelay

inductive Provider where
  | premiumize
  | easynews
  deriving DecidableEq, Repr, Inhabited

namespace Provider

def name : Provider → String
  | .premiumize => "premiumize"
  | .easynews => "easynews"

def all : List Provider := [.premiumize, .easynews]

def ofName? (s : String) : Option Provider := all.find? fun p => p.name == s

theorem ofName?_name (p : Provider) : ofName? p.name = some p := by cases p <;> rfl

end Provider

/-- The transport family a piece of content belongs to. -/
inductive Kind where
  | torrent
  | usenet
  deriving DecidableEq, Repr, Inhabited

def Kind.name : Kind → String
  | .torrent => "torrent"
  | .usenet => "usenet"

def Provider.kind : Provider → Kind
  | .premiumize => .torrent
  | .easynews => .usenet

end LinkRelay
