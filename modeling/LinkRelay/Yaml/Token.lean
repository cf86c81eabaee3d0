import LinkRelay.Text.Utf8
import LinkRelay.Yaml.Scalar
set_option autoImplicit false

/-!
# Tokens of a YAML text

Indentation becomes tokens that open and close blocks. What may turn out to be a key is noted
with its place among the tokens; when its colon comes, the key's token is put there. Such a key
stands on one line and is not long; where a key must stand, a missing colon is an error.
-/

namespace LinkRelay.Yaml

inductive ScalarStyle where
  | plain
  | quoted
  | literal
  | folded
  deriving DecidableEq, Repr

inductive Token where
  | version (major minor : Nat)
  | tagHandle (handle lead : String)
  | documentStart
  | documentEnd
  | sequenceStart
  | mappingStart
  | blockEnd
  | flowSequenceStart
  | flowSequenceEnd
  | flowMappingStart
  | flowMappingEnd
  | entry
  | comma
  | key
  | value
  | alias (name : String)
  | anchor (name : String)
  | tag (handle suffix : String)
  | scalar (style : ScalarStyle) (text : String)
  deriving DecidableEq, Repr

structure Place where
  index : Nat
  line : Nat
  column : Nat
  deriving DecidableEq, Repr

namespace Place

def start : Place := ⟨0, 0, 0⟩

def past (p : Place) (c : Char) : Place :=
  if isBreak c then ⟨p.index + 1, p.line + 1, 0⟩ else ⟨p.index + 1, p.line, p.column + 1⟩

end Place

/-- What may turn out to be a key: the number of its first token, whether a key must stand there,
    and its place. -/
structure PossibleKey where
  token : Nat
  required : Bool
  place : Place

def maxKeyLength : Nat := 1024

structure Scanner where
  rest : List Char
  place : Place
  tokens : List Token
  /-- The column of the innermost block, −1 outside of all. -/
  indent : Int
  outerIndents : List Int
  /-- The possible key of each pair of brackets, innermost first, and last that of the block. -/
  keys : List (Option PossibleKey)
  keyAllowed : Bool

namespace Scanner

def start (text : List Char) : Scanner := ⟨text, .start, [], -1, [], [none], true⟩

def inFlow (s : Scanner) : Bool := 1 < s.keys.length

def moveTo (s : Scanner) (rest : List Char) : Scanner :=
  let passed := s.rest.take (s.rest.length - rest.length)
  { s with rest, place := passed.foldl Place.past s.place }

def emit (s : Scanner) (t : Token) : Scanner := { s with tokens := s.tokens ++ [t] }

def emitAt (s : Scanner) (position : Option Nat) (t : Token) : Scanner :=
  { s with tokens := s.tokens.insertIdx (position.getD s.tokens.length) t }

def allowKeys (s : Scanner) (keyAllowed : Bool) : Scanner := { s with keyAllowed }

def isStale (s : Scanner) (k : PossibleKey) : Bool :=
  k.place.line < s.place.line || k.place.index + maxKeyLength < s.place.index

/-- Gives a possible key up; a required one must not be. -/
def giveUp (k : PossibleKey) : Option (Option PossibleKey) := if k.required then none else some none

def dropStaleKeys (s : Scanner) : Option Scanner := do
  let keys ← s.keys.mapM fun
    | some k => if s.isStale k then giveUp k else some (some k)
    | none => some none
  return { s with keys }

def dropKey (s : Scanner) : Option Scanner :=
  match s.keys with
  | some k :: outer => (giveUp k).map fun k => { s with keys := k :: outer }
  | _ => some s

def noteKey (s : Scanner) : Option Scanner :=
  if s.keyAllowed then do
    let required := !s.inFlow && s.indent == s.place.column
    let s ← s.dropKey
    return { s with keys := some ⟨s.tokens.length, required, s.place⟩ :: s.keys.drop 1 }
  else some s

def openBlock (s : Scanner) (column : Nat) (position : Option Nat) (t : Token) : Scanner :=
  if !s.inFlow && s.indent < column then
    { s.emitAt position t with indent := column, outerIndents := s.indent :: s.outerIndents }
  else s

def closeFrom (column : Int) (tokens : List Token) (indent : Int) :
    List Int → List Token × Int × List Int
  | [] => (tokens, indent, [])
  | outer :: rest =>
    if column < indent then closeFrom column (tokens ++ [.blockEnd]) outer rest
    else (tokens, indent, outer :: rest)

def closeBlocks (s : Scanner) (column : Int) : Scanner :=
  if s.inFlow then s
  else
    let (tokens, indent, outerIndents) := closeFrom column s.tokens s.indent s.outerIndents
    { s with tokens, indent, outerIndents }

/-- Skips to the next token. Tabs do not count as white space where a key may start. Answers
    whether a key may start at the end. -/
def skipGap (inFlow : Bool) : Bool → Bool → List Char → Bool × List Char
  | keyAllowed, _, [] => (keyAllowed, [])
  | keyAllowed, inComment, c :: rest =>
    if isBreak c then skipGap inFlow (keyAllowed || !inFlow) false rest
    else if inComment || c == ' ' || (c == '\t' && (inFlow || !keyAllowed)) then
      skipGap inFlow keyAllowed inComment rest
    else if c == '#' then skipGap inFlow keyAllowed true rest
    else (keyAllowed, c :: rest)

def isUriChar (inBrackets : Bool) (c : Char) : Bool :=
  isWordChar c || ";/?:@&=+$.!~*'()%".contains c || (inBrackets && ",[]".contains c)

def escapedBytes : List Char → Bytes × List Char
  | '%' :: a :: b :: rest =>
    if Text.isHexDigit a && Text.isHexDigit b then
      let (bytes, after) := escapedBytes rest
      (UInt8.ofNat (Text.digitValue a * 16 + Text.digitValue b) :: bytes, after)
    else ([], '%' :: a :: b :: rest)
  | s => ([], s)

def uriChars (inBrackets : Bool) : Nat → List Char → Option (List Char × List Char)
  | 0, s => some ([], s)
  | left + 1, s =>
    match s with
    | [] => some ([], [])
    | '%' :: _ => do
      let (bytes, rest) := escapedBytes s
      if bytes.isEmpty then none
      else
        let text ← Utf8.decode? bytes
        let (more, rest) ← uriChars inBrackets left rest
        return (text.toList ++ more, rest)
    | c :: rest =>
      if isUriChar inBrackets c then do
        let (more, rest) ← uriChars inBrackets left rest
        return (c :: more, rest)
      else some ([], c :: rest)

def uri (inBrackets : Bool) (s : List Char) : Option (List Char × List Char) := do
  let (text, rest) ← uriChars inBrackets s.length s
  if text.isEmpty then none else return (text, rest)

def handleOf (s : List Char) : Option (List Char × Bool × List Char) :=
  match s with
  | '!' :: rest =>
    match rest.dropWhile isWordChar with
    | '!' :: after => some ('!' :: rest.takeWhile isWordChar ++ ['!'], true, after)
    | after => some ('!' :: rest.takeWhile isWordChar, false, after)
  | _ => none

def tagToken (s : List Char) : Option (Token × List Char) :=
  match s with
  | '<' :: rest => do
    let (suffix, rest) ← uri true rest
    match rest with
    | '>' :: rest => return (.tag "" (String.ofList suffix), rest)
    | _ => none
  | _ => do
    let (handle, isClosed, rest) ← handleOf ('!' :: s)
    if isClosed then
      let (suffix, rest) ← uri false rest
      return (.tag (String.ofList handle) (String.ofList suffix), rest)
    else
      let (more, rest) ← uriChars false rest.length rest
      let suffix := handle.drop 1 ++ more
      if suffix.isEmpty then return (.tag "" "!", rest)
      else return (.tag "!" (String.ofList suffix), rest)

def anchorName (s : List Char) : Option (String × List Char) :=
  let name := s.takeWhile isWordChar
  let rest := s.dropWhile isWordChar
  let ends := atGap rest || rest.head?.any fun c => "?:,]\x7d%@\x60".contains c
  if name.isEmpty || !ends then none else some (String.ofList name, rest)

def versionNumber (s : List Char) : Option (Nat × List Char) :=
  let digits := s.takeWhile Char.isDigit
  if digits.isEmpty || 9 < digits.length then none
  else some (digits.foldl (fun n d => n * 10 + Text.digitValue d) 0, s.dropWhile Char.isDigit)

def directive (s : List Char) : Option (Token × List Char) := do
  let name := s.takeWhile isWordChar
  let rest := s.dropWhile isWordChar
  if !atGap rest then none
  let rest := rest.dropWhile isBlank
  if name = "YAML".toList then
    let (major, rest) ← versionNumber rest
    let '.' :: rest := rest | none
    let (minor, rest) ← versionNumber rest
    return (.version major minor, ← endOfLine? rest)
  else if name = "TAG".toList then
    let (handle, isClosed, rest) ← handleOf rest
    if !isClosed && handle ≠ ['!'] then none
    let c :: rest := rest | none
    if !isBlank c then none
    let (lead, rest) ← uri true (rest.dropWhile isBlank)
    if !atGap rest then none
    return (.tagHandle (String.ofList handle) (String.ofList lead), ← endOfLine? rest)
  else none

def leaveDocument (s : Scanner) : Option Scanner :=
  ((s.closeBlocks (-1)).dropKey).map (·.allowKeys false)

def scanDirective (s : Scanner) (rest : List Char) : Option Scanner := do
  let s ← s.leaveDocument
  let (t, rest) ← directive rest
  return (s.emit t).moveTo rest

def scanMarker (s : Scanner) (t : Token) : Option Scanner := do
  let s ← s.leaveDocument
  return (s.emit t).moveTo (s.rest.drop 3)

def scanFlowStart (s : Scanner) (t : Token) (rest : List Char) : Option Scanner := do
  let s ← s.noteKey
  return ({ s with keys := none :: s.keys, keyAllowed := true }.emit t).moveTo rest

def scanFlowEnd (s : Scanner) (t : Token) (rest : List Char) : Option Scanner := do
  let s ← s.dropKey
  let keys := if s.inFlow then s.keys.drop 1 else s.keys
  return ({ s with keys, keyAllowed := false }.emit t).moveTo rest

def scanComma (s : Scanner) (rest : List Char) : Option Scanner := do
  let s ← s.dropKey
  return ((s.allowKeys true).emit .comma).moveTo rest

/-- Outside of brackets an entry or a key stands only where a key may start. -/
def scanEntry (s : Scanner) (rest : List Char) : Option Scanner := do
  if !s.inFlow && !s.keyAllowed then none
  let s ← (s.openBlock s.place.column none .sequenceStart).dropKey
  return ((s.allowKeys true).emit .entry).moveTo rest

def scanKey (s : Scanner) (rest : List Char) : Option Scanner := do
  if !s.inFlow && !s.keyAllowed then none
  let s ← (s.openBlock s.place.column none .mappingStart).dropKey
  return ((s.allowKeys !s.inFlow).emit .key).moveTo rest

def scanValue (s : Scanner) (rest : List Char) : Option Scanner :=
  match s.keys with
  | some k :: outer =>
    let s := (s.emitAt (some k.token) .key).openBlock k.place.column (some k.token) .mappingStart
    let s := { s with keys := none :: outer, keyAllowed := false }
    some ((s.emit .value).moveTo rest)
  | _ => do
    if !s.inFlow && !s.keyAllowed then none
    let s := s.openBlock s.place.column none .mappingStart
    return ((s.allowKeys !s.inFlow).emit .value).moveTo rest

def scanAnchor (s : Scanner) (isAlias : Bool) (rest : List Char) : Option Scanner := do
  let s ← s.noteKey
  let (name, rest) ← anchorName rest
  return ((s.allowKeys false).emit (if isAlias then .alias name else .anchor name)).moveTo rest

def scanTag (s : Scanner) (rest : List Char) : Option Scanner := do
  let s ← s.noteKey
  let (t, rest) ← tagToken rest
  if !(atGap rest || (s.inFlow && rest.head? == some ',')) then none
  return ((s.allowKeys false).emit t).moveTo rest

def scanBlock (s : Scanner) (literal : Bool) (rest : List Char) : Option Scanner := do
  let s ← s.dropKey
  let (text, rest) ← block literal (s.indent + 1).toNat rest
  let style : ScalarStyle := if literal then .literal else .folded
  return ((s.allowKeys true).emit (.scalar style (String.ofList text))).moveTo rest

def scanQuoted (s : Scanner) (single : Bool) (rest : List Char) : Option Scanner := do
  let s ← s.noteKey
  let (text, rest) ← quoted single rest
  return ((s.allowKeys false).emit (.scalar .quoted (String.ofList text))).moveTo rest

def scanPlain (s : Scanner) : Option Scanner := do
  let s ← s.noteKey
  let scan ← plain ⟨s.inFlow, (s.indent + 1).toNat⟩ s.rest
  return ((s.allowKeys scan.broken).emit (.scalar .plain (String.ofList scan.text))).moveTo scan.rest

def startsPlain (inFlow : Bool) (c : Char) (rest : List Char) : Bool :=
  !(isGap c || "-?:,[]\x7b\x7d#&*!|>'\"%@\x60".contains c) ||
    (c == '-' && !rest.head?.any isBlank) ||
    (!inFlow && (c == '?' || c == ':') && !atGap rest)

def token (s : Scanner) (c : Char) (rest : List Char) : Option Scanner :=
  let inFlow := s.inFlow
  if s.place.column == 0 && c == '%' then s.scanDirective rest
  else if s.place.column == 0 && isMarker '-' s.rest then s.scanMarker .documentStart
  else if s.place.column == 0 && isMarker '.' s.rest then s.scanMarker .documentEnd
  else if c == '[' then s.scanFlowStart .flowSequenceStart rest
  else if c == '\x7b' then s.scanFlowStart .flowMappingStart rest
  else if c == ']' then s.scanFlowEnd .flowSequenceEnd rest
  else if c == '\x7d' then s.scanFlowEnd .flowMappingEnd rest
  else if c == ',' then s.scanComma rest
  else if c == '-' && atGap rest then s.scanEntry rest
  else if c == '?' && (inFlow || atGap rest) then s.scanKey rest
  else if c == ':' && (inFlow || atGap rest) then s.scanValue rest
  else if c == '*' then s.scanAnchor true rest
  else if c == '&' then s.scanAnchor false rest
  else if c == '!' then s.scanTag rest
  else if c == '|' && !inFlow then s.scanBlock true rest
  else if c == '>' && !inFlow then s.scanBlock false rest
  else if c == '\'' then s.scanQuoted true rest
  else if c == '"' then s.scanQuoted false rest
  else if startsPlain inFlow c rest then s.scanPlain
  else none

def settle (s : Scanner) : Option Scanner := do
  let (keyAllowed, rest) := skipGap s.inFlow s.keyAllowed false s.rest
  let s ← ({ s with keyAllowed }.moveTo rest).dropStaleKeys
  return s.closeBlocks s.place.column

def finish (s : Scanner) : Option (List Token) := do
  return (← (s.closeBlocks (-1)).dropKey).tokens

def scan : Nat → Scanner → Option (List Token)
  | 0, _ => none
  | left + 1, s => do
    let s ← s.settle
    match s.rest with
    | [] => s.finish
    | c :: rest => scan left (← s.token c rest)

end Scanner

def tokens? (text : List Char) : Option (List Token) :=
  Scanner.scan (text.length + 1) (.start text)

end LinkRelay.Yaml
