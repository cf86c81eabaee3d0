import LinkRelay.Yaml.Token
set_option autoImplicit false

/-!
# Nodes of a YAML document

The tree that tokens spell. An alias keeps the number of the anchored node that it stands for, so
that a node may hold an alias of itself. A text holds at most one document.
-/

namespace LinkRelay.Yaml

inductive Node where
  | scalar (tag : Option String) (style : ScalarStyle) (text : String)
  | sequence (tag : Option String) (items : List Node)
  | mapping (tag : Option String) (members : List (Node × Node))
  | alias (anchor : Nat)

/-- A document: its root, if it has one, and its anchored nodes by number. -/
structure Document where
  root : Option Node
  anchored : List (Nat × Node)

namespace Node

def empty : Node := .scalar none .plain ""

def resolve (d : Document) : Node → Node
  | .alias n => (d.anchored.lookup n).getD empty
  | node => node

end Node

structure Reader where
  tokens : List Token
  handles : List (String × String)
  names : List (String × Nat)
  anchored : List (Nat × Node)

abbrev Reading := StateT Reader Option

namespace Reading

def peek : Reading (Option Token) := do return (← get).tokens.head?

def skip : Reading Unit := modify fun r => { r with tokens := r.tokens.drop 1 }

def expect (t : Token) : Reading Unit := do
  if (← peek) = some t then skip else failure

def accept (t : Token) : Reading Bool := do
  if (← peek) = some t then
    skip
    return true
  else return false

structure Properties where
  anchor : Option String
  tag : Option String

def fullTag (handle suffix : String) : Reading (Option String) := do
  if handle.isEmpty then return (if suffix = "!" then none else some suffix)
  else
    match (← get).handles.lookup handle with
    | some lead =>
      let tag := lead ++ suffix
      return (if tag = "!" then none else some tag)
    | none => failure

def properties : Reading (Properties × Bool) := do
  match ← peek with
  | some (.anchor name) =>
    skip
    match ← peek with
    | some (.tag handle suffix) =>
      skip
      return (⟨some name, ← fullTag handle suffix⟩, true)
    | _ => return (⟨some name, none⟩, true)
  | some (.tag handle suffix) =>
    skip
    match ← peek with
    | some (.anchor name) =>
      skip
      return (⟨some name, ← fullTag handle suffix⟩, true)
    | _ => return (⟨none, ← fullTag handle suffix⟩, true)
  | _ => return (⟨none, none⟩, false)

def announce (name : Option String) : Reading (Option Nat) := do
  match name with
  | none => return none
  | some name =>
    let n := (← get).names.length
    modify fun r => { r with names := (name, n) :: r.names }
    return some n

def complete (number : Option Nat) (node : Node) : Reading Node := do
  if let some n := number then modify fun r => { r with anchored := (n, node) :: r.anchored }
  return node

/-- Where a node stands: in a block, in a block mapping, where a sequence needs no indentation, or
    within brackets. -/
inductive Position where
  | block
  | member
  | flow
  deriving DecidableEq

def isNext (ends : List Token) : Reading Bool := do
  match ← peek with
  | none => return false
  | some t => return ends.contains t

mutual

/-- Reads a node; `depth` bounds how deep the reading goes. -/
def node (position : Position) : Nat → Reading Node
  | 0 => failure
  | depth + 1 => do
    match ← peek with
    | some (.alias name) =>
      skip
      match (← get).names.lookup name with
      | some n => return .alias n
      | none => failure
    | _ =>
      let (p, isMarked) ← properties
      let number ← announce p.anchor
      complete number (← content position p.tag isMarked depth)

def content (position : Position) (tag : Option String) (isMarked : Bool) : Nat → Reading Node
  | 0 => failure
  | depth + 1 => do
    match ← peek with
    | some (.scalar style text) =>
      skip
      return .scalar tag style text
    | some .flowSequenceStart =>
      skip
      return .sequence tag (← flowItems true depth)
    | some .flowMappingStart =>
      skip
      return .mapping tag (← flowMembers true depth)
    | some .entry =>
      if position = .member then return .sequence tag (← looseItems depth)
      else if isMarked then return .scalar tag .plain ""
      else failure
    | some .sequenceStart =>
      if position ≠ .flow then
        skip
        return .sequence tag (← items depth)
      else if isMarked then return .scalar tag .plain ""
      else failure
    | some .mappingStart =>
      if position ≠ .flow then
        skip
        return .mapping tag (← members depth)
      else if isMarked then return .scalar tag .plain ""
      else failure
    | _ => if isMarked then return .scalar tag .plain "" else failure

def nodeUnless (ends : List Token) (position : Position) : Nat → Reading Node
  | 0 => failure
  | depth + 1 => do
    if ← isNext ends then return .empty else node position depth

def items : Nat → Reading (List Node)
  | 0 => failure
  | depth + 1 => do
    if ← accept .entry then
      let item ← nodeUnless [.entry, .blockEnd] .block depth
      return item :: (← items depth)
    else
      expect .blockEnd
      return []

def looseItems : Nat → Reading (List Node)
  | 0 => failure
  | depth + 1 => do
    if ← accept .entry then
      let item ← nodeUnless [.entry, .key, .value, .blockEnd] .block depth
      return item :: (← looseItems depth)
    else return []

def members : Nat → Reading (List (Node × Node))
  | 0 => failure
  | depth + 1 => do
    if ← accept .key then
      let key ← nodeUnless [.key, .value, .blockEnd] .member depth
      let value ← if ← accept .value then nodeUnless [.key, .value, .blockEnd] .member depth
        else pure .empty
      return (key, value) :: (← members depth)
    else
      expect .blockEnd
      return []

def flowItems (isFirst : Bool) : Nat → Reading (List Node)
  | 0 => failure
  | depth + 1 => do
    if ← accept .flowSequenceEnd then return []
    if !isFirst then expect .comma
    if ← accept .flowSequenceEnd then return []
    let item ← if ← accept .key then do pure (.mapping none [← flowPair depth])
      else node .flow depth
    return item :: (← flowItems false depth)

/-- A pair that is an item by itself, after its key's indicator. A key that is not written takes
    the token in its place with it. -/
def flowPair : Nat → Reading (Node × Node)
  | 0 => failure
  | depth + 1 => do
    let ends : List Token := [.comma, .flowSequenceEnd]
    let key ← if ← isNext (.value :: ends) then do
        skip
        pure .empty
      else node .flow depth
    let value ← if ← accept .value then nodeUnless ends .flow depth else pure .empty
    return (key, value)

def flowMembers (isFirst : Bool) : Nat → Reading (List (Node × Node))
  | 0 => failure
  | depth + 1 => do
    let ends : List Token := [.comma, .flowMappingEnd]
    if ← accept .flowMappingEnd then return []
    if !isFirst then expect .comma
    if ← accept .flowMappingEnd then return []
    let member ← if ← accept .key then do
        let key ← nodeUnless (.value :: ends) .flow depth
        let value ← if ← accept .value then nodeUnless ends .flow depth else pure .empty
        pure (key, value)
      else do pure (← node .flow depth, .empty)
    return member :: (← flowMembers false depth)

end

def standardHandles : List (String × String) := [("!", "!"), ("!!", "tag:yaml.org,2002:")]

def isDirective : Token → Bool
  | .version .. | .tagHandle .. => true
  | _ => false

def directives (seenVersion : Bool) (seen : List (String × String)) :
    List Token → Option (List (String × String) × List Token)
  | .version major minor :: rest =>
    if seenVersion || major ≠ 1 || !(minor = 1 || minor = 2) then none
    else directives true seen rest
  | .tagHandle handle lead :: rest =>
    if (seen.lookup handle).isSome then none
    else directives seenVersion ((handle, lead) :: seen) rest
  | rest => some (seen, rest)

def dropEnds (tokens : List Token) : List Token := tokens.dropWhile (· == .documentEnd)

def root (seen : List (String × String)) (depth : Nat) (tokens : List Token) : Option Document := do
  let handles := seen ++ standardHandles
  let (node, r) ← (node .block depth).run ⟨tokens, handles, [], []⟩
  if (dropEnds r.tokens).isEmpty then return ⟨some node, r.anchored⟩ else none

def document (tokens : List Token) : Option Document := do
  let depth := 4 * tokens.length + 8
  match tokens with
  | [] => return ⟨none, []⟩
  | t :: _ =>
    if isDirective t || t == .documentStart then
      let (seen, rest) ← directives false [] tokens
      let .documentStart :: rest := rest | none
      match rest with
      | [] => return ⟨some .empty, []⟩
      | t :: _ =>
        if t == .documentEnd then
          if (dropEnds rest).isEmpty then return ⟨some .empty, []⟩ else none
        else root seen depth rest
    else root [] depth tokens

end Reading

def Document.ofText? (text : String) : Option Document := do
  Reading.document (← tokens? (← characters? text))

end LinkRelay.Yaml
