import LinkRelay.Failure
set_option autoImplicit false

/-!
# Log lines and reports

Lines of the log have a level, and only those up to a chosen level are shown. A report tells why
the program ended.
-/

namespace LinkRelay

inductive LogLevel where
  | error
  | warn
  | info
  | debug
  | trace
  deriving DecidableEq, Repr

namespace LogLevel

def all : List LogLevel := [.error, .warn, .info, .debug, .trace]

def name : LogLevel → String
  | .error => "ERROR"
  | .warn => "WARN"
  | .info => "INFO"
  | .debug => "DEBUG"
  | .trace => "TRACE"

def rank (level : LogLevel) : Nat := all.idxOf level + 1

def ofText? (text : String) : Option LogLevel :=
  match Text.readU64 text.toList with
  | .ok n => all.find? fun level => level.rank = n
  | .error _ =>
    all.find? fun level => Text.asciiLower level.name.toList == Text.asciiLower text.toList

def shows (limit level : LogLevel) : Bool := level.rank ≤ limit.rank

end LogLevel

structure Report where
  headline : String
  cause : Option String

namespace Report

def ofFailure (f : Failure) : Report := ⟨f.message, none⟩

def linesOf (text : String) : List String := (Text.splitAll '\n' text.toList).map String.ofList

def lines (r : Report) : List String :=
  linesOf ("Error: " ++ r.headline) ++ match r.cause with
    | some cause => ["", "Caused by:"] ++ (linesOf cause).map ("    " ++ ·)
    | none => []

end Report

end LinkRelay
