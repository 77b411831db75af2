import Timetable.Calendar.Instant
import Timetable.Text.Numeral
import Timetable.Text.Split

/-!
# Times as text

`Instant.render` writes RFC 3339 in UTC, `Instant.display` the form used in messages. Two readers go
back: `readStrict` takes exactly the RFC 3339 form, `readLenient` also years beyond four digits, short
numbers and blanks. Both name the first fault from the left.
-/

namespace Timetable

inductive TimeError
  | tooShort
  | invalid
  | outOfRange
  | trailing
  | impossible
  deriving DecidableEq

def TimeError.message : TimeError → String
  | .tooShort => "premature end of input"
  | .invalid => "input contains invalid characters"
  | .outOfRange => "input is out of range"
  | .trailing => "trailing input"
  | .impossible => "no possible date and time matching format"

namespace Instant
open Text

/-! ## Writing -/

/-- A year has four digits; outside 0 to 9999 it has a sign. -/
def renderYear (year : Int) : String :=
  if 0 ≤ year ∧ year ≤ 9999 then padded 4 year.toNat
  else (if year < 0 then "-" else "+") ++ padded 4 year.natAbs

def renderDate (d : Date) : String :=
  renderYear d.year ++ "-" ++ padded 2 d.month ++ "-" ++ padded 2 d.day

/-- The time of day; within a leap second the seconds are 60. -/
def renderClock (t : Instant) : String :=
  let clock := (t.second % 86400).toNat
  let second := clock % 60 + if t.isLeap then 1 else 0
  padded 2 (clock / 3600) ++ ":" ++ padded 2 (clock / 60 % 60) ++ ":" ++ padded 2 second

/-- The fewest of 0, 3, 6 or 9 digits that lose nothing. -/
def renderFraction (t : Instant) : String :=
  let n := t.nano % giga
  if n = 0 then ""
  else if n % 1000000 = 0 then "." ++ padded 3 (n / 1000000)
  else if n % 1000 = 0 then "." ++ padded 6 (n / 1000)
  else "." ++ padded 9 n

/-- RFC 3339 with as many digits as the fraction needs. -/
def render (t : Instant) : String :=
  renderDate t.date ++ "T" ++ renderClock t ++ renderFraction t ++ "Z"

def renderSeconds (t : Instant) : String :=
  renderDate t.date ++ "T" ++ renderClock t ++ "Z"

/-- The form used in messages. -/
def display (t : Instant) : String :=
  renderDate t.date ++ " " ++ renderClock t ++ renderFraction t ++ " UTC"

/-! ## Reading -/

/-- A reader gives its value with the unread rest. -/
abbrev Read := Except TimeError

def readFixed (count : Nat) (cs : List Char) : Read (Nat × List Char) :=
  match count with
  | 0 => .ok (0, cs)
  | count + 1 => do
    let (n, rest) ← readFixed count cs
    match rest with
    | [] => .error .tooShort
    | c :: rest => if c.isDigit then .ok (10 * n + digitValue c, rest) else .error .invalid

/-- At least one digit and at most `limit` of them. -/
def readUpTo (limit : Nat) (cs : List Char) : Read (Nat × List Char) :=
  let digits := (cs.take limit).takeWhile Char.isDigit
  if cs.isEmpty then .error .tooShort
  else if digits.isEmpty then .error .invalid
  else .ok (digits.foldl (fun n c => 10 * n + digitValue c) 0, cs.drop digits.length)

def readChar (c : Char) : List Char → Read (List Char)
  | [] => .error .tooShort
  | d :: rest => if c = d then .ok rest else .error .invalid

/-- The letter or blank between date and time. -/
def readSeparator : List Char → Read (List Char)
  | [] => .error .tooShort
  | c :: rest => if c = 'T' ∨ c = 't' ∨ c = ' ' then .ok rest else .error .invalid

/-- The digits after the point, as nanoseconds; digits after the ninth are dropped. -/
def readFraction (cs : List Char) : Read (Nat × List Char) := do
  let (n, rest) ← readUpTo 9 cs
  .ok (n * Nat.pow 10 (9 - (cs.length - rest.length)), rest.dropWhile Char.isDigit)

def readOptionalFraction : List Char → Read (Nat × List Char)
  | '.' :: cs => readFraction cs
  | cs => .ok (0, cs)

/-- Two digits of an offset; a single character left over is a text cut short, unless it takes more
than one byte. -/
def readPair : List Char → Read ((Char × Char) × List Char)
  | [] => .error .tooShort
  | [c] => if c.utf8Size < 2 then .error .tooShort else .error .invalid
  | a :: b :: rest => if a.isDigit && b.isDigit then .ok ((a, b), rest) else .error .invalid

/-- The offset from UTC in seconds: `Z`, or a sign, hours and minutes with `colon` between them. -/
def readOffset (colon : List Char → Read (List Char)) : List Char → Read (Int × List Char)
  | [] => .error .tooShort
  | c :: cs =>
    if c = 'Z' ∨ c = 'z' then .ok (0, cs)
    else if c = '+' ∨ c = '-' ∨ c = '\u2212' then do
      let ((h₁, h₂), cs) ← readPair cs
      let cs ← colon cs
      let ((m₁, m₂), cs) ← readPair cs
      if 6 ≤ digitValue m₁ then .error .outOfRange
      else
        let hours := 10 * digitValue h₁ + digitValue h₂
        let minutes := 10 * digitValue m₁ + digitValue m₂
        let offset : Int := 3600 * hours + 60 * minutes
        .ok (if c = '+' then offset else -offset, cs)
    else .error .invalid

/-- The instant of a local date and time at an offset. Second 60 is a leap second. -/
def ofLocal (day : Int) (hour minute second : Nat) (nano : Nat) (offset : Int) : Instant :=
  let leap := second = 60
  let clock : Int := 3600 * hour + 60 * minute + (if leap then 59 else second)
  let fraction := nano % giga + if leap then giga else 0
  ⟨86400 * day + clock - offset, fraction, by
    have : nano % giga < giga := Nat.mod_lt _ (by decide)
    simp only [fraction]
    split <;> unfold giga at * <;> omega⟩

/-- Reads RFC 3339 with a four-digit year. A text of fewer than 19 bytes is too short whatever it
holds; the date is checked right after the day, the time of day after the fraction. -/
def readStrict (text : String) : Read Instant := do
  if text.utf8ByteSize < 19 then .error .tooShort
  let (year, cs) ← readFixed 4 text.toList
  let cs ← readChar '-' cs
  let (month, cs) ← readFixed 2 cs
  let cs ← readChar '-' cs
  let (day, cs) ← readFixed 2 cs
  let date ← (Date.of? year month day).elim (.error .outOfRange) .ok
  let cs ← readSeparator cs
  let (hour, cs) ← readFixed 2 cs
  let cs ← readChar ':' cs
  let (minute, cs) ← readFixed 2 cs
  let cs ← readChar ':' cs
  let (second, cs) ← readFixed 2 cs
  let (nano, cs) ← readOptionalFraction cs
  if 24 ≤ hour ∨ 60 ≤ minute ∨ 61 ≤ second then .error .outOfRange
  let (offset, cs) ← readOffset (readChar ':') cs
  if !cs.isEmpty then .error .trailing
  if 86400 ≤ offset.natAbs then .error .outOfRange
  .ok (ofLocal date.toDay hour minute second nano offset)

/-- A year: four digits at most, or any number of digits after a sign. -/
def readYear : List Char → Read (Int × List Char)
  | '-' :: cs => (readUpTo cs.length cs).map fun (n, rest) => (-n, rest)
  | '+' :: cs => (readUpTo cs.length cs).map fun (n, rest) => (n, rest)
  | cs => (readUpTo 4 cs).map fun (n, rest) => (n, rest)

/-- Years are words of 32 bits with a sign. -/
def yearLimit : Int := 2147483648

def readShort (lo hi : Nat) (cs : List Char) : Read (Nat × List Char) := do
  let (n, rest) ← readUpTo 2 (cs.dropWhile isBlank)
  if n < lo ∨ hi < n then .error .outOfRange else .ok (n, rest)

/-- The offset at the end of a lenient time, which may be spelled `UTC`. -/
def readLenientOffset (cs : List Char) : Read (Int × List Char) :=
  if (cs.take 3).map Char.toUpper = ['U', 'T', 'C'] then .ok (0, cs.drop 3)
  else readOffset (fun cs => .ok (cs.dropWhile fun c => c == ':' || isBlank c)) cs

/-- Reads RFC 3339 with any year, with numbers of fewer digits and with blanks between the parts. -/
def readLenient (text : String) : Read Instant := do
  let blanks := List.dropWhile isBlank
  let (year, cs) ← readYear (blanks text.toList)
  if yearLimit ≤ year ∨ year < -yearLimit then .error .outOfRange
  let cs ← readChar '-' (blanks cs)
  let (month, cs) ← readShort 1 12 cs
  let cs ← readChar '-' (blanks cs)
  let (day, cs) ← readShort 1 31 cs
  let cs ← readSeparator cs
  let (hour, cs) ← readShort 0 23 cs
  let cs ← readChar ':' (blanks cs)
  let (minute, cs) ← readShort 0 59 cs
  let cs ← readChar ':' (blanks cs)
  let (second, cs) ← readShort 0 60 cs
  let (nano, cs) ← readOptionalFraction cs
  let (offset, cs) ← readLenientOffset (blanks cs)
  if !(blanks cs).isEmpty then .error .trailing
  let date ← (Date.of? year month day).elim (.error .outOfRange) .ok
  if date.year < Date.firstYear ∨ Date.lastYear < date.year then .error .outOfRange
  if 86400 ≤ offset.natAbs then .error .outOfRange
  let t := ofLocal date.toDay hour minute second nano offset
  if t.Representable then .ok t else .error .impossible

end Instant

end Timetable
