import LinkRelay.Text.Split
set_option autoImplicit false

/-!
# Unsigned numbers in text

A number may carry one leading `+`. Digits are read from the left, and the first character that
is no digit or the first digit that leads past the limit decides the fault.
-/

namespace LinkRelay.Text

inductive NumberFault where
  | empty
  | invalidDigit
  | tooLarge
  deriving DecidableEq, Repr

def NumberFault.message : NumberFault → String
  | .empty => "cannot parse integer from empty string"
  | .invalidDigit => "invalid digit found in string"
  | .tooLarge => "number too large to fit in target type"

def readDigits (base limit : Nat) : Nat → List Char → Except NumberFault Nat
  | value, [] => .ok value
  | value, c :: rest =>
    if digitValue c < base then
      let next := value * base + digitValue c
      if next ≤ limit then readDigits base limit next rest else .error .tooLarge
    else .error .invalidDigit

def readNumber (limit : Nat) (s : List Char) : Except NumberFault Nat :=
  match s with
  | [] => .error .empty
  | ['+'] => .error .invalidDigit
  | '+' :: digits => readDigits 10 limit 0 digits
  | digits => readDigits 10 limit 0 digits

def maxU32 : Nat := 4294967295

def maxU64 : Nat := 18446744073709551615

def readU64 (s : List Char) : Except NumberFault Nat := readNumber maxU64 s

end LinkRelay.Text
