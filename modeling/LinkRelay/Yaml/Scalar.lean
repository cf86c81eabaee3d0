import LinkRelay.Text.Split
import LinkRelay.Yaml.Character
set_option autoImplicit false

/-!
# The text of scalars

Plain, quoted and block scalars, from their first character on. Lines are folded: a single break
between words is a space, and further breaks stand for themselves.
-/

namespace LinkRelay.Yaml

/-- White space between words: blanks before the first break, that break, the breaks after it, and
    how many blanks follow the last one. -/
structure Gap where
  blanks : List Char
  first : Option (List Char)
  others : List Char
  column : Nat

namespace Gap

def empty : Gap := ⟨[], none, [], 0⟩

def escapedBreak : Gap := ⟨[], some [], [], 0⟩

def isBroken (g : Gap) : Bool := g.first.isSome

def add (g : Gap) (c : Char) : Gap :=
  if isBreak c then
    match g.first with
    | none => { g with first := some [c], column := 0 }
    | some _ => { g with others := g.others ++ [c], column := 0 }
  else
    match g.first with
    | none => { g with blanks := g.blanks ++ [c] }
    | some _ => { g with column := g.column + 1 }

def text (g : Gap) : List Char :=
  match g.first with
  | none => g.blanks
  | some ['\n'] => if g.others.isEmpty then [' '] else g.others
  | some break_ => break_ ++ g.others

def atLineStart (g : Gap) : Bool := g.isBroken && g.column == 0

end Gap

/-- Where a plain scalar stands: inside brackets or not, and the column that its further lines
    must reach. -/
structure PlainPlace where
  inFlow : Bool
  indent : Nat

def isFlowIndicator (c : Char) : Bool :=
  c == ',' || c == '[' || c == ']' || c == '\x7b' || c == '\x7d'

def endsPlain (place : PlainPlace) (c : Char) (rest : List Char) : Bool :=
  (c == ':' && atGap rest) || (place.inFlow && isFlowIndicator c)

/-- Inside brackets a colon before an indicator belongs to nothing. -/
def isStrayColon (place : PlainPlace) (c : Char) (rest : List Char) : Bool :=
  place.inFlow && c == ':' && rest.head?.any fun d => isFlowIndicator d || d == '?'

def endsAfterGap (place : PlainPlace) (g : Gap) (s : List Char) : Bool :=
  (g.atLineStart && isDocumentMarker s) || s.head? == some '#' ||
    (g.isBroken && !place.inFlow && g.column < place.indent)

structure PlainScan where
  text : List Char
  rest : List Char
  broken : Bool

/-- Reads on in a plain scalar, after its text so far (in reverse) and a gap. -/
def plainFrom (place : PlainPlace) (done : List Char) (gap : Option Gap) :
    List Char → Option PlainScan
  | [] => some ⟨done.reverse, [], gap.any (·.isBroken)⟩
  | c :: rest =>
    let scan : PlainScan := ⟨done.reverse, c :: rest, gap.any (·.isBroken)⟩
    if isGap c then
      let g := gap.getD .empty
      if c == '\t' && g.isBroken && g.column < place.indent then none
      else plainFrom place done (some (g.add c)) rest
    else if gap.any fun g => endsAfterGap place g (c :: rest) then some scan
    else if isStrayColon place c rest then none
    else if endsPlain place c rest then some scan
    else plainFrom place (c :: (((gap.map (·.text)).getD []).reverse ++ done)) none rest

def plain (place : PlainPlace) (s : List Char) : Option PlainScan := plainFrom place [] none s

def isLineMarker (gap : Option Gap) (s : List Char) : Bool :=
  gap.any (·.atLineStart) && isDocumentMarker s

def gapText (gap : Option Gap) : List Char := (gap.map (·.text)).getD []

/-- Reads on in a single-quoted scalar; `quote` tells that a quote was just read, which ends the
    scalar unless another follows. -/
def singleFrom (done : List Char) (gap : Option Gap) (quote : Bool) :
    List Char → Option (List Char × List Char)
  | [] => if quote then some (done.reverse, []) else none
  | c :: rest =>
    if quote then
      if c == '\'' then singleFrom ('\'' :: done) none false rest
      else some (done.reverse, c :: rest)
    else if isGap c then singleFrom done (some ((gap.getD .empty).add c)) false rest
    else if isLineMarker gap (c :: rest) then none
    else
      let done := (gapText gap).reverse ++ done
      if c == '\'' then singleFrom done none true rest
      else singleFrom (c :: done) none false rest

def escape? : Char → Option Char
  | '0' => some '\x00'
  | 'a' => some '\x07'
  | 'b' => some '\x08'
  | 't' | '\t' => some '\t'
  | 'n' => some '\n'
  | 'v' => some '\x0b'
  | 'f' => some '\x0c'
  | 'r' => some '\r'
  | 'e' => some '\x1b'
  | ' ' => some ' '
  | '"' => some '"'
  | '/' => some '/'
  | '\\' => some '\\'
  | 'N' => some '\u0085'
  | '_' => some '\u00a0'
  | 'L' => some '\u2028'
  | 'P' => some '\u2029'
  | _ => none

def codeLength? : Char → Option Nat
  | 'x' => some 2
  | 'u' => some 4
  | 'U' => some 8
  | _ => none

inductive DoubleState where
  | text (gap : Option Gap)
  | backslash
  | code (left value : Nat)

def charOfCode? (n : Nat) : Option Char :=
  if h : n.isValidChar then some (Char.ofNatAux n h) else none

def doubleFrom (done : List Char) : DoubleState → List Char → Option (List Char × List Char)
  | _, [] => none
  | .backslash, c :: rest =>
    if isBreak c then doubleFrom done (.text (some .escapedBreak)) rest
    else match codeLength? c with
      | some n => doubleFrom done (.code n 0) rest
      | none =>
        match escape? c with
        | some e => doubleFrom (e :: done) (.text none) rest
        | none => none
  | .code left value, c :: rest =>
    if !Text.isHexDigit c then none
    else
      let value := value * 16 + Text.digitValue c
      if left ≤ 1 then
        match charOfCode? value with
        | some e => doubleFrom (e :: done) (.text none) rest
        | none => none
      else doubleFrom done (.code (left - 1) value) rest
  | .text gap, c :: rest =>
    if isGap c then doubleFrom done (.text (some ((gap.getD .empty).add c))) rest
    else if isLineMarker gap (c :: rest) then none
    else
      let done := (gapText gap).reverse ++ done
      if c == '"' then some (done.reverse, rest)
      else if c == '\\' then doubleFrom done .backslash rest
      else doubleFrom (c :: done) (.text none) rest

def quoted (single : Bool) (s : List Char) : Option (List Char × List Char) :=
  if single then singleFrom [] none false s else doubleFrom [] (.text none) s

inductive Chomping where
  | strip
  | clip
  | keep
  deriving DecidableEq

structure BlockHeader where
  literal : Bool
  chomping : Chomping
  increment : Option Nat

def chomping? : Char → Option Chomping
  | '+' => some .keep
  | '-' => some .strip
  | _ => none

def increment? (c : Char) : Option Nat := if c.isDigit then some (Text.digitValue c) else none

def headerSigns (s : List Char) : Chomping × Option Nat × List Char :=
  let (chomping, s') := match s with
    | c :: rest => ((chomping? c), if (chomping? c).isSome then rest else s)
    | [] => (none, s)
  let (increment, s'') := match s' with
    | c :: rest => (increment? c, if (increment? c).isSome then rest else s')
    | [] => (none, s')
  match chomping, increment, s'' with
  | some m, i, s => (m, i, s)
  | none, some i, c :: rest =>
    match chomping? c with
    | some m => (m, some i, rest)
    | none => (.clip, some i, c :: rest)
  | none, i, s => (.clip, i, s)

def dropComment : List Char → List Char
  | '#' :: rest => rest.dropWhile (!isBreak ·)
  | s => s

def endOfLine? (s : List Char) : Option (List Char) :=
  match dropComment (s.dropWhile isBlank) with
  | [] => some []
  | c :: rest => if isBreak c then some rest else none

def blockHeader (literal : Bool) (s : List Char) : Option (BlockHeader × List Char) :=
  let (chomping, increment, s) := headerSigns s
  if increment = some 0 then none
  else (endOfLine? s).map fun rest => (⟨literal, chomping, increment⟩, rest)

/-- A block scalar so far: its text in reverse, the break after its last line and the breaks after
    that one, whether its last line starts with a blank, and its indentation, if that is known. -/
structure BlockState where
  done : List Char
  lastBreak : List Char
  breaks : List Char
  blankLine : Bool
  indent : Option Nat
  widest : Nat

namespace BlockState

def settle (b : BlockState) (least : Nat) (column : Nat) : Nat :=
  b.indent.getD (max (max b.widest column) (max least 1))

def isBefore (b : BlockState) (column : Nat) : Bool := b.indent.all (column < ·)

/-- Begins a line. The break before it is folded if neither line is indented further. -/
def beginLine (b : BlockState) (literal : Bool) (c : Char) : BlockState :=
  let folds := !literal && b.lastBreak == ['\n'] && !b.blankLine && !isBlank c
  let between := if folds then (if b.breaks.isEmpty then [' '] else []) else b.lastBreak
  { b with done := c :: ((between ++ b.breaks).reverse ++ b.done), lastBreak := [], breaks := []
           blankLine := isBlank c }

def finish (b : BlockState) (chomping : Chomping) : List Char :=
  b.done.reverse ++ match chomping with
    | .strip => []
    | .clip => b.lastBreak
    | .keep => b.lastBreak ++ b.breaks

end BlockState

/-- Reads on in a block scalar: `column` is the place before the text of a line, none within it. -/
def blockFrom (h : BlockHeader) (least : Nat) (b : BlockState) :
    Option Nat → List Char → Option (List Char × List Char)
  | _, [] => some (b.finish h.chomping, [])
  | none, c :: rest =>
    if isBreak c then blockFrom h least { b with lastBreak := [c], breaks := [] } (some 0) rest
    else blockFrom h least { b with done := c :: b.done } none rest
  | some column, c :: rest =>
    if c == ' ' && b.isBefore column then blockFrom h least b (some (column + 1)) rest
    else if c == '\t' && b.isBefore column then none
    else if isBreak c then
      blockFrom h least { b with breaks := b.breaks ++ [c], widest := max b.widest column }
        (some 0) rest
    else
      let indent := b.settle least column
      if column = indent then
        blockFrom h least ({ b with indent := some indent }.beginLine h.literal c) none rest
      else some (b.finish h.chomping, c :: rest)

def block (literal : Bool) (least : Nat) (s : List Char) : Option (List Char × List Char) := do
  let (h, s) ← blockHeader literal s
  let indent := h.increment.map fun n => (least - 1) + n
  blockFrom h least ⟨[], [], [], false, indent, 0⟩ (some 0) s

end LinkRelay.Yaml
