import LinkRelay.Text.Number
import LinkRelay.Url.Domain
import LinkRelay.Url.Fault
import LinkRelay.Url.Percent
set_option autoImplicit false

/-!
# Hosts

The host of a URL is a domain or an address. An address of four bytes may be written in fewer
parts and in octal or hexadecimal; one of eight pieces is written with its longest run of zeros
left out.
-/

namespace LinkRelay

inductive Host where
  | domain (name : String)
  | ipv4 (address : Nat)
  | ipv6 (pieces : List Nat)
  deriving DecidableEq, Repr

namespace Host

/-- A number of an address in parts. The outer `none` is no number, the inner one too large. -/
def readPart (s : List Char) : Option (Option Nat) :=
  let digits (base : Nat) (ds : List Char) : Option (Option Nat) :=
    if ds.all fun c => Text.digitValue c < base then
      let n := ds.foldl (fun n c => n * base + Text.digitValue c) 0
      some (if n ≤ Text.maxU32 then some n else none)
    else none
  match s with
  | [] => none
  | '0' :: 'x' :: ds => digits 16 ds
  | '0' :: 'X' :: ds => digits 16 ds
  | '0' :: d :: ds => digits 8 (d :: ds)
  | ds => digits 10 ds

def parts (name : List Char) : List (List Char) :=
  match (Text.splitAll '.' name).reverse with
  | [] :: rest => rest.reverse
  | all => all.reverse

/-- Whether a name must be an address: its last part is a number. -/
def endsInNumber (name : List Char) : Bool :=
  match (parts name).getLast? with
  | some last => (!last.isEmpty && last.all Char.isDigit) || (readPart last).isSome
  | none => false

def readIpv4 (name : List Char) : Except UrlFault Nat :=
  match (parts name).mapM fun part => (readPart part).join with
  | none => .error .invalidIpv4
  | some numbers =>
    match numbers.reverse with
    | [] => .error .invalidIpv4
    | last :: before =>
      let room := Nat.pow 256 (4 - before.length)
      if 4 ≤ before.length || before.any (255 < ·) || room ≤ last then .error .invalidIpv4
      else .ok (before.reverse.foldl (fun n part => n * 256 + part) 0 * room + last)

def takePiece (s : List Char) : Option (Nat × List Char) :=
  let digits := (s.take 4).takeWhile Text.isHexDigit
  if digits.isEmpty then none
  else some (digits.foldl (fun n c => n * 16 + Text.digitValue c) 0, s.drop digits.length)

def readTail (s : List Char) : Option (List Nat) := do
  let bytes ← (Text.splitAll '.' s).mapM fun ds =>
    if ds.isEmpty || 3 < ds.length || !ds.all Char.isDigit || (ds.length > 1 && ds.head? == some '0')
    then none
    else
      let n := ds.foldl (fun n c => n * 10 + Text.digitValue c) 0
      if n ≤ 255 then some n else none
  match bytes with
  | [a, b, c, d] => some [a * 256 + b, c * 256 + d]
  | _ => none

/-- Pieces between single colons, of which the last two may be four bytes in decimal. -/
def readPieces : Nat → List Char → Option (List Nat)
  | 0, _ => none
  | fuel + 1, s =>
    if s.contains '.' && !s.contains ':' then readTail s
    else do
      let (piece, rest) ← takePiece s
      match rest with
      | [] => some [piece]
      | ':' :: more => return piece :: (← readPieces fuel more)
      | _ => none

def splitGap : List Char → Option (List Char × List Char)
  | ':' :: ':' :: rest => some ([], rest)
  | c :: rest => (splitGap rest).map fun (before, after) => (c :: before, after)
  | [] => none

def readIpv6 (s : List Char) : Except UrlFault (List Nat) :=
  let side (t : List Char) : Option (List Nat) :=
    if t.isEmpty then some [] else readPieces (t.length + 1) t
  match splitGap s with
  | some (before, after) =>
    match (if before.contains '.' then none else side before), side after with
    | some front, some back =>
      if front.length + back.length ≤ 7 then
        .ok (front ++ List.replicate (8 - front.length - back.length) 0 ++ back)
      else .error .invalidIpv6
    | _, _ => .error .invalidIpv6
  | none =>
    match side s with
    | some pieces => if pieces.length = 8 then .ok pieces else .error .invalidIpv6
    | none => .error .invalidIpv6

def bracketed? : List Char → Option (Except UrlFault (List Char))
  | '[' :: rest =>
    match rest.reverse with
    | ']' :: inside => some (.ok inside.reverse)
    | _ => some (.error .invalidIpv6)
  | _ => none

def forbidden (c : Char) : Bool := c.toNat == 0 || "\t\n\r #/:<>?@[\\]^|".toList.contains c

def readPlain (s : List Char) : Except UrlFault Host :=
  match bracketed? s with
  | some inside => do return .ipv6 (← readIpv6 (← inside))
  | none =>
    if s.any forbidden then .error .invalidDomainCharacter
    else .ok (.domain (String.ofList (Percent.encode Percent.inControls s)))

/-- Reads the host of a special scheme: escapes are undone, and the name takes its ASCII form. -/
def readSpecial (rules : Domain.Rules) (s : List Char) : Except UrlFault Host :=
  match bracketed? s with
  | some inside => do return .ipv6 (← readIpv6 (← inside))
  | none =>
    match (Utf8.decode? (Percent.decode s)).bind fun name => rules.toAscii? name.toList with
    | none => .error .invalidDomain
    | some [] => .error .emptyHost
    | some name =>
      if endsInNumber name then (readIpv4 name).map .ipv4
      else .ok (.domain (String.ofList name))

def hex (n : Nat) : List Char := Nat.toDigits 16 n

def longestGap (pieces : List Nat) : Option (Nat × Nat) :=
  let runs := (List.range pieces.length).map fun i =>
    (i, ((pieces.drop i).takeWhile (· == 0)).length)
  runs.foldl (fun best run =>
    if 2 ≤ run.2 && best.all fun b => b.2 < run.2 then some run else best) none

def showIpv6 (pieces : List Nat) : List Char :=
  let join (ps : List Nat) : List Char := List.intercalate [':'] (ps.map hex)
  match longestGap pieces with
  | some (start, length) =>
    join (pieces.take start) ++ ':' :: ':' :: join (pieces.drop (start + length))
  | none => join pieces

def toText : Host → String
  | .domain name => name
  | .ipv4 n =>
    s!"{n / 16777216}.{n / 65536 % 256}.{n / 256 % 256}.{n % 256}"
  | .ipv6 pieces => String.ofList ('[' :: showIpv6 pieces ++ [']'])

end Host
end LinkRelay
