import Timetable.Cron.Expr
import Timetable.Text.Numeral
import Timetable.Text.Split

/-!
# Reading cron expressions

`Expr.parse` reads an optional zone and then five fields, a named descriptor or `@every` with a duration.
Of several faults the one met first from the left is reported; within a part the step is read before
the range.
-/

namespace Timetable.Cron
open Text

/-- A value of the field: one of its names in any ASCII case, or a numeral. -/
def parseValue (field : Field) (raw : List Char) : Except CronError Nat :=
  match field.names.idxOf? (String.ofList (raw.map Char.toUpper)) with
  | some i => .ok (i + field.lowest)
  | none =>
    match readNat max32 raw with
    | .error _ => .error (.invalidValue field (String.ofList raw))
    | .ok v =>
      if v < field.lowest ∨ field.highest < v then .error (.outOfRange field v) else .ok v

/-- The values met from `v` on in strides of `step` while they are at most `hi`. A value is a word of 32 bits, and reading
is aborted at a stride that leads past the largest one, also if no value follows. No value is met twice, so `hi + 1`
of them suffice. -/
def strides (hi step : Nat) : (count v : Nat) → Except CronError (List Nat)
  | 0, _ => .ok []
  | count + 1, v =>
    if hi < v then .ok []
    else if max32 < v + step then .error .overlongPeriod
    else (strides hi step count (v + step)).map (v :: ·)

def parseStep (field : Field) (part step : List Char) : Except CronError Nat :=
  match readNat max32 step with
  | .ok (n + 1) => .ok (n + 1)
  | _ => .error (.invalidStep field (String.ofList part))

/-- The bounds of a part; `stepped` makes a single value run to the end of the field. -/
def parseRange (field : Field) (part range : List Char) (stepped : Bool) :
    Except CronError (Nat × Nat) :=
  match splitFirst (· == '-') range with
  | some (lo, hi) => do
    let lo ← parseValue field lo
    let hi ← parseValue field hi
    if hi < lo then .error (.invalidRange field (String.ofList part)) else .ok (lo, hi)
  | none => do
    let lo ← parseValue field range
    .ok (lo, if stepped then field.highest else lo)

def isWildcard (field : Field) (range : List Char) : Bool :=
  range == ['*'] || (range == ['?'] && field.isDay)

def parsePart (field : Field) (part : List Char) : Except CronError FieldSet := do
  let (range, step) ← match splitFirst (· == '/') part with
    | some (range, step) => do .ok (range, some (← parseStep field part step))
    | none => .ok (part, none)
  let stride := step.getD 1
  if isWildcard field range then
    let hi := field.wildcardEnd
    .ok ⟨← strides hi stride (hi + 1) field.lowest, stride == 1⟩
  else
    let (lo, hi) ← parseRange field part range step.isSome
    .ok ⟨← strides hi stride (hi + 1) lo, false⟩

def parseField (field : Field) (raw : List Char) : Except CronError FieldSet :=
  (pieces (· == ',') raw).foldlM (fun set part => do .ok (set.union (← parsePart field part))) ∅

def foldSunday (s : FieldSet) : FieldSet :=
  ⟨s.values.map (· % 7), s.star⟩

/-- Five fields between blanks. -/
def parseFields (body : List Char) : Except CronError Fields :=
  match words body with
  | [minute, hour, dayOfMonth, month, dayOfWeek] => do
    let minute ← parseField .minute minute
    let hour ← parseField .hour hour
    let dayOfMonth ← parseField .dayOfMonth dayOfMonth
    let month ← parseField .month month
    let dayOfWeek ← parseField .dayOfWeek dayOfWeek
    .ok ⟨minute, hour, dayOfMonth, month, foldSunday dayOfWeek⟩
  | parts => .error (.fieldCount parts.length)

def unitSeconds : Char → Option Nat
  | 'h' => some 3600
  | 'm' => some 60
  | 's' => some 1
  | _ => none

/-- Adds up numbers with units; `digits` holds the digits of the number being read. All sums and
products fit in a signed word of 64 bits. -/
def sumDuration : (total : Nat) → (digits : List Char) → List Char → Option Nat
  | total, digits, [] => if digits.isEmpty && 1 ≤ total then some total else none
  | total, digits, c :: cs =>
    if c.isDigit then sumDuration total (digits ++ [c]) cs
    else
      match unitSeconds c, readNat maxSigned64 digits with
      | some unit, .ok n =>
        if total + n * unit ≤ maxSigned64 then sumDuration (total + n * unit) [] cs else none
      | _, _ => none

/-- The longest period, in seconds: a signed word of 64 bits in milliseconds. -/
def longestPeriod : Nat := maxSigned64 / 1000

/-- A duration such as `90s` or `1h30m`, of at least one second. -/
def parseDuration (raw : List Char) : Except CronError Nat :=
  match sumDuration 0 [] raw with
  | none => .error (.invalidDuration (String.ofList raw))
  | some n => if n ≤ longestPeriod then .ok n else .error .overlongPeriod

/-- The fields that a named descriptor stands for. -/
def descriptorFields : String → Option String
  | "yearly" | "annually" => some "0 0 1 1 *"
  | "monthly" => some "0 0 1 * *"
  | "weekly" => some "0 0 * * 0"
  | "daily" | "midnight" => some "0 0 * * *"
  | "hourly" => some "0 * * * *"
  | _ => none

/-- What follows the at sign. -/
def parseDescriptor (name : List Char) : Except CronError Plan :=
  match descriptorFields (String.ofList name) with
  | some body => (parseFields body.toList).map .fields
  | none =>
    match after? "every".toList name with
    | some (c :: rest) =>
      if isBlank c then (parseDuration (trim rest)).map .every
      else .error (.unknownDescriptor (String.ofList ('@' :: name)))
    | _ => .error (.unknownDescriptor (String.ofList ('@' :: name)))

/-- A zone in seconds east: a name of UTC, or a sign, two digits of hours and two of minutes, with colons
anywhere after the sign. -/
def parseZone (zone : List Char) : Except CronError Int :=
  let invalid := .error (.invalidZone (String.ofList zone))
  if ["UTC", "Z", "Etc/UTC", "GMT"].contains (String.ofList zone) then .ok 0
  else match zone with
    | [] => invalid
    | sign :: rest =>
      if sign ≠ '+' ∧ sign ≠ '-' then invalid
      else match rest.filter (· != ':') with
        | [h₁, h₂, m₁, m₂] =>
          let hours := 10 * digitValue h₁ + digitValue h₂
          let minutes := 10 * digitValue m₁ + digitValue m₂
          if [h₁, h₂, m₁, m₂].all Char.isDigit && hours ≤ 23 && minutes ≤ 59 then
            let east : Int := 3600 * hours + 60 * minutes
            .ok (if sign = '+' then east else -east)
          else invalid
        | _ => invalid

def splitZone (source : List Char) : Except CronError (Int × List Char) :=
  match (after? "CRON_TZ=".toList source).orElse fun _ => after? "TZ=".toList source with
  | none => .ok (0, source)
  | some rest =>
    let (zone, body) := (splitFirst isBlank rest).getD (rest, [])
    (parseZone zone).map (·, body)

def Expr.parse (text : String) : Except CronError Expr := do
  let source := trim text.toList
  if source.isEmpty then .error .empty
  let (zone, body) ← splitZone source
  let plan ← match trim body with
    | [] => .error .empty
    | '@' :: name => parseDescriptor name
    | body => (parseFields body).map .fields
  .ok ⟨String.ofList source, zone, plan⟩

end Timetable.Cron
