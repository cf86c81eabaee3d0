import LinkRelay.Json.Value
import LinkRelay.Text.Utf8
set_option autoImplicit false

/-!
# Reading JSON

A strict reader of one document: white space may surround it, nothing else may. It works on
decoded characters in which `none` stands for an ill-formed stretch of bytes; such a stretch is
admitted inside a string alone, which then denotes no text.
-/

namespace LinkRelay.Json

abbrev Input := List (Option Char)

def isGap : Option Char → Bool
  | some c => c == ' ' || c == '\n' || c == '\r' || c == '\t'
  | none => false

def skipGap (s : Input) : Input := s.dropWhile isGap

def literal? : List Char → Input → Option Input
  | [], s => some s
  | w :: word, some c :: rest => if c = w then literal? word rest else none
  | _ :: _, _ => none

def takeDigits : Input → List Char × Input
  | some c :: rest =>
    if c.isDigit then
      let (digits, after) := takeDigits rest
      (c :: digits, after)
    else ([], some c :: rest)
  | s => ([], s)

def valueOf (digits : List Char) : Nat :=
  digits.foldl (fun n c => n * 10 + Text.digitValue c) 0

def wholePart? (s : Input) : Option (List Char × Input) :=
  match takeDigits s with
  | ([], _) => none
  | (['0'], rest) => some (['0'], rest)
  | ('0' :: _, _) => none
  | (digits, rest) => some (digits, rest)

def fraction? : Input → Option (List Char × Input)
  | some '.' :: rest =>
    match takeDigits rest with
    | ([], _) => none
    | (digits, after) => some ('.' :: digits, after)
  | s => some ([], s)

def exponent? (s : Input) : Option (List Char × Input) :=
  let digitsAfter (lead : List Char) (rest : Input) : Option (List Char × Input) :=
    match takeDigits rest with
    | ([], _) => none
    | (digits, after) => some (lead ++ digits, after)
  let signed (e : Char) (rest : Input) : Option (List Char × Input) :=
    match rest with
    | some '+' :: after => digitsAfter [e, '+'] after
    | some '-' :: after => digitsAfter [e, '-'] after
    | _ => digitsAfter [e] rest
  match s with
  | some 'e' :: rest => signed 'e' rest
  | some 'E' :: rest => signed 'E' rest
  | _ => some ([], s)

def number? (s : Input) : Option (Json × Input) := do
  let (negative, s) := match s with
    | some '-' :: rest => (true, rest)
    | _ => (false, s)
  let (whole, s) ← wholePart? s
  let (fraction, s) ← fraction? s
  let (exponent, s) ← exponent? s
  let n := valueOf whole
  if fraction.isEmpty && exponent.isEmpty && !(negative && n == 0) then
    return (.int (if negative then -(n : Int) else n), s)
  else
    return (.real ((if negative then ['-'] else []) ++ whole ++ fraction ++ exponent), s)

def hex4? : Input → Option (Nat × Input)
  | some a :: some b :: some c :: some d :: rest =>
    if [a, b, c, d].all Text.isHexDigit then
      some ([a, b, c, d].foldl (fun n c => n * 16 + Text.digitValue c) 0, rest)
    else none
  | _ => none

/-- What a piece of a string denotes: a character, half of a surrogate pair, or nothing. -/
inductive Unit where
  | char (c : Char)
  | high (n : Nat)
  | low (n : Nat)
  | bad

def escape? : Input → Option (Unit × Input)
  | some '"' :: rest => some (.char '"', rest)
  | some '\\' :: rest => some (.char '\\', rest)
  | some '/' :: rest => some (.char '/', rest)
  | some 'b' :: rest => some (.char '\x08', rest)
  | some 'f' :: rest => some (.char '\x0c', rest)
  | some 'n' :: rest => some (.char '\n', rest)
  | some 'r' :: rest => some (.char '\r', rest)
  | some 't' :: rest => some (.char '\t', rest)
  | some 'u' :: rest => do
    let (n, after) ← hex4? rest
    if 0xD800 ≤ n ∧ n ≤ 0xDBFF then return (.high n, after)
    else if 0xDC00 ≤ n ∧ n ≤ 0xDFFF then return (.low n, after)
    else return (.char (Char.ofNat n), after)
  | _ => none

/-- The text that pieces denote, if they denote text: a high half must be followed by a low one. -/
def textOf : List Unit → Option (List Char)
  | [] => some []
  | .char c :: rest => (textOf rest).map (c :: ·)
  | .high h :: .low l :: rest =>
    (textOf rest).map (Char.ofNat (0x10000 + (h - 0xD800) * 0x400 + (l - 0xDC00)) :: ·)
  | _ :: _ => none

def units? : Nat → Input → Option (List Unit × Input)
  | 0, _ => none
  | fuel + 1, s =>
    match s with
    | some '"' :: rest => some ([], rest)
    | some '\\' :: rest => do
      let (piece, after) ← escape? rest
      let (pieces, after) ← units? fuel after
      return (piece :: pieces, after)
    | some c :: rest =>
      if c.toNat < 0x20 then none
      else do
        let (pieces, after) ← units? fuel rest
        return (.char c :: pieces, after)
    | none :: rest => do
      let (pieces, after) ← units? fuel rest
      return (.bad :: pieces, after)
    | [] => none

def string? (s : Input) : Option (Option String × Input) := do
  let (pieces, rest) ← units? (s.length + 1) s
  return ((textOf pieces).map String.ofList, rest)

mutual

def value? : Nat → Input → Option (Json × Input)
  | 0, _ => none
  | fuel + 1, s =>
    match skipGap s with
    | some 'n' :: rest => (literal? "ull".toList rest).map (.null, ·)
    | some 't' :: rest => (literal? "rue".toList rest).map (.bool true, ·)
    | some 'f' :: rest => (literal? "alse".toList rest).map (.bool false, ·)
    | some '"' :: rest => (string? rest).map fun (t, after) => (.text t, after)
    | some '[' :: rest =>
      match skipGap rest with
      | some ']' :: after => some (.list [], after)
      | _ => (items? fuel rest).map fun (items, after) => (.list items, after)
    | some '\x7b' :: rest =>
      match skipGap rest with
      | some '\x7d' :: after => some (.object [], after)
      | _ => (members? fuel rest).map fun (members, after) => (.object members, after)
    | rest => number? rest

def items? : Nat → Input → Option (List Json × Input)
  | 0, _ => none
  | fuel + 1, s => do
    let (item, rest) ← value? fuel s
    match skipGap rest with
    | some ',' :: rest =>
      let (items, after) ← items? fuel rest
      return (item :: items, after)
    | some ']' :: after => return ([item], after)
    | _ => none

def members? : Nat → Input → Option (List (Option String × Json) × Input)
  | 0, _ => none
  | fuel + 1, s =>
    match skipGap s with
    | some '"' :: rest => do
      let (name, rest) ← string? rest
      match skipGap rest with
      | some ':' :: rest =>
        let (value, rest) ← value? fuel rest
        match skipGap rest with
        | some ',' :: rest =>
          let (members, after) ← members? fuel rest
          return ((name, value) :: members, after)
        | some '\x7d' :: after => return ([(name, value)], after)
        | _ => none
      | _ => none
    | _ => none

end

/-- Every step of the reader consumes a character, so the input's length is fuel enough. -/
def read? (s : Input) : Option Json := do
  let (value, rest) ← value? (2 * s.length + 2) s
  if (skipGap rest).isEmpty then return value else none

def ofBytes? (bytes : Bytes) : Option Json := read? (Utf8.scan bytes)

def ofString? (s : String) : Option Json := read? (s.toList.map some)

end LinkRelay.Json
