/-!
# Decimal numerals

`readNat` reads a numeral with an optional plus sign into a bounded number; the first character that
is at fault decides which error is reported. `padded` writes one with leading zeros.
-/

namespace Timetable.Text

inductive NumeralError
  | empty
  | invalidDigit
  | tooLarge
  deriving DecidableEq

def NumeralError.message : NumeralError → String
  | .empty => "cannot parse integer from empty string"
  | .invalidDigit => "invalid digit found in string"
  | .tooLarge => "number too large to fit in target type"

def digitValue (c : Char) : Nat :=
  c.toNat - '0'.toNat

/-- Appends digits to the number read so far. -/
def readDigits (limit : Nat) : Nat → List Char → Except NumeralError Nat
  | acc, [] => .ok acc
  | acc, c :: cs =>
    if c.isDigit then
      let next := 10 * acc + digitValue c
      if next ≤ limit then readDigits limit next cs else .error .tooLarge
    else .error .invalidDigit

/-- Reads a number that is at most `limit`. -/
def readNat (limit : Nat) : List Char → Except NumeralError Nat
  | [] => .error .empty
  | ['+'] => .error .invalidDigit
  | '+' :: cs => readDigits limit 0 cs
  | cs => readDigits limit 0 cs

/-- A number with at least `width` digits. -/
def padded (width n : Nat) : String :=
  let digits := toString n
  String.ofList (List.replicate (width - digits.length) '0') ++ digits

/-- The largest value of an unsigned word of 32 bits. -/
def max32 : Nat := 4294967295

/-- The largest value of an unsigned word of 64 bits. -/
def max64 : Nat := 18446744073709551615

/-- The largest value of a signed word of 64 bits. -/
def maxSigned64 : Nat := 9223372036854775807

end Timetable.Text
