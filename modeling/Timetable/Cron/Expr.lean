import Timetable.Calendar.Date

/-!
# Cron expressions

An expression fires either in the minutes that its five fields select, in a fixed zone, or evenly with
a period of whole seconds.
-/

namespace Timetable.Cron

inductive Field
  | minute
  | hour
  | dayOfMonth
  | month
  | dayOfWeek
  deriving DecidableEq

namespace Field

def label : Field → String
  | minute => "minute"
  | hour => "hour"
  | dayOfMonth => "day-of-month"
  | month => "month"
  | dayOfWeek => "day-of-week"

/-- The least value. -/
def lowest : Field → Nat
  | dayOfMonth | month => 1
  | _ => 0

/-- The greatest value; weekday 7 is a second spelling of Sunday. -/
def highest : Field → Nat
  | minute => 59
  | hour => 23
  | dayOfMonth => 31
  | month => 12
  | dayOfWeek => 7

/-- The names of the values in order, the first naming the least value. -/
def names : Field → List String
  | month => ["JAN", "FEB", "MAR", "APR", "MAY", "JUN", "JUL", "AUG", "SEP", "OCT", "NOV", "DEC"]
  | dayOfWeek => ["SUN", "MON", "TUE", "WED", "THU", "FRI", "SAT"]
  | _ => []

/-- The greatest value that a wildcard spans. -/
def wildcardEnd : Field → Nat
  | dayOfWeek => 6
  | f => f.highest

/-- The fields that can be `?`. -/
def isDay : Field → Bool
  | dayOfMonth | dayOfWeek => true
  | _ => false

end Field

/-- The values a field allows, and whether it is a plain wildcard. -/
structure FieldSet where
  values : List Nat
  star : Bool
  deriving DecidableEq

namespace FieldSet

def contains (s : FieldSet) (v : Nat) : Bool :=
  s.values.contains v

instance : EmptyCollection FieldSet := ⟨⟨[], false⟩⟩

def union (s t : FieldSet) : FieldSet :=
  ⟨s.values ++ t.values, s.star || t.star⟩

end FieldSet

structure Fields where
  minute : FieldSet
  hour : FieldSet
  dayOfMonth : FieldSet
  month : FieldSet
  dayOfWeek : FieldSet
  deriving DecidableEq

/-- Whether a day counted from 1970 is allowed. When both day fields are restricted either may match,
otherwise both have to. -/
def Fields.allowsDay (f : Fields) (day : Int) : Bool :=
  let inMonth := f.dayOfMonth.contains (Date.ofDay day).day
  let inWeek := f.dayOfWeek.contains (Date.weekday day)
  if f.dayOfMonth.star || f.dayOfWeek.star then inMonth && inWeek else inMonth || inWeek

inductive Plan
  | fields (fields : Fields)
  | every (seconds : Nat)
  deriving DecidableEq

/-- A parsed expression with its text and its zone in seconds east of UTC. -/
structure Expr where
  source : String
  zone : Int
  plan : Plan
  deriving DecidableEq

inductive CronError
  | empty
  | fieldCount (found : Nat)
  | invalidValue (field : Field) (value : String)
  | outOfRange (field : Field) (value : Nat)
  | invalidRange (field : Field) (value : String)
  | invalidStep (field : Field) (value : String)
  | unknownDescriptor (descriptor : String)
  | invalidDuration (value : String)
  | invalidZone (zone : String)
  /-- A period that cannot be held, of seconds or between the values of a field; a pass that meets one is aborted. -/
  | overlongPeriod
  deriving DecidableEq

def CronError.message : CronError → String
  | .empty => "empty schedule expression"
  | .fieldCount found => s!"expected 5 fields, found {found}"
  | .invalidValue field value => s!"invalid value '{value}' in {field.label} field"
  | .outOfRange field value =>
    s!"{field.label} value {value} out of range {field.lowest}-{field.highest}"
  | .invalidRange field value => s!"invalid range '{value}' in {field.label} field"
  | .invalidStep field value => s!"invalid step '{value}' in {field.label} field"
  | .unknownDescriptor descriptor => s!"unknown descriptor '{descriptor}'"
  | .invalidDuration value => s!"invalid duration '{value}'"
  | .invalidZone zone => s!"unsupported time zone '{zone}'; use UTC or a fixed offset like +02:00"
  | .overlongPeriod => "period out of range"

end Timetable.Cron
