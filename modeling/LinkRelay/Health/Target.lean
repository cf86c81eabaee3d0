import LinkRelay.Health.Status
import LinkRelay.Text.Split
set_option autoImplicit false

/-!
# Request lines

Which method and target make a request of HTTP, and the path that a target names. A target is a
path with perhaps a query, an asterisk, an authority alone, or a whole URL.
-/

namespace LinkRelay.Health

def isMethodChar (c : Char) : Bool := c.isAlphanum || "!#$%&'*+-.^_\x60|~".contains c

def isMethod (method : List Char) : Bool := !method.isEmpty && method.all isMethodChar

def isBeyondAscii (c : Char) : Bool := 0x80 ≤ c.toNat

def isPathChar (c : Char) : Bool :=
  isBeyondAscii c || c.isAlphanum || "!$%&'()*+,-./:;=@[\\]^_|~\"\x7b\x7d".contains c

def isQueryChar (c : Char) : Bool :=
  isBeyondAscii c || (0x21 ≤ c.toNat && c.toNat ≤ 0x7E && c ≠ '"' && c ≠ '#' && c ≠ '<' && c ≠ '>')

def splitAt (ends : List Char) (s : List Char) : List Char × List Char :=
  s.span fun c => !ends.contains c

def pathOf? (s : List Char) : Option String :=
  let (path, rest) := splitAt ['?', '#'] s
  let query := match rest with
    | '?' :: rest => (splitAt ['#'] rest).1
    | _ => []
  if path.all isPathChar && query.all isQueryChar then
    some (if path.isEmpty then "/" else String.ofList path)
  else none

def isAuthorityChar (c : Char) : Bool := c.isAlphanum || "!$&'()*+,-.:;=@[]_~%".contains c

/-- What an authority has shown so far: colons, brackets, and percent signs outside of user info. -/
structure AuthorityScan where
  colons : Nat
  opened : Bool
  closed : Bool
  percent : Bool
  afterAt : Bool

def AuthorityScan.step (a : AuthorityScan) (c : Char) : Option AuthorityScan :=
  if !isAuthorityChar c then none
  else
    let a := { a with afterAt := c == '@' }
    match c with
    | ':' => if 8 ≤ a.colons then none else some { a with colons := a.colons + 1 }
    | '[' => if a.percent || a.opened then none else some { a with opened := true }
    | ']' =>
      if !a.opened || a.closed then none
      else some { a with closed := true, colons := 0, percent := false }
    | '@' => some { a with colons := 0, percent := false }
    | '%' => some { a with percent := true }
    | _ => some a

def isAuthority (s : List Char) : Bool :=
  match s.foldlM AuthorityScan.step ⟨0, false, false, false, false⟩ with
  | some a => a.opened == a.closed && a.colons ≤ 1 && !a.afterAt && !a.percent
  | none => false

def isSchemeChar (c : Char) : Bool := c.isAlphanum || c == '+' || c == '-' || c == '.'

def maxScheme : Nat := 64

def afterScheme? (s : List Char) : Option (List Char) :=
  Text.after? "://".toList (s.dropWhile isSchemeChar)

def targetPath? (target : List Char) : Option String :=
  match target with
  | [] => none
  | ['*'] => some "*"
  | '/' :: _ => pathOf? target
  | _ =>
    match afterScheme? target with
    | some rest =>
      let (authority, path) := splitAt ['/', '?', '#'] rest
      if maxScheme < (target.takeWhile isSchemeChar).length || authority.isEmpty ||
          !isAuthority authority then none
      else pathOf? path
    | none => if isAuthority target then some "" else none

def isVisible (c : Char) : Bool := 0x21 ≤ c.toNat && c.toNat ≠ 0x7F

/-- The answer to a request. What is no request has a page without text; the answer to a HEAD
    request is a page without its text. -/
def answer (h : Health) (now : Nat) (method target : String) : Page :=
  let isLine := isMethod method.toList && target.toList.all isVisible
  let path := if isLine then targetPath? target.toList else none
  match path with
  | none => ⟨400, none, ""⟩
  | some path =>
    let page := h.page now method path
    if method = "HEAD" then { page with body := "" } else page

end LinkRelay.Health
