/-!
# Civil dates

The proleptic Gregorian calendar. `Date.toDay` counts days from 1970-01-01 and `Date.ofDay` goes back:
it peels off cycles of 400 years, centuries, cycles of 4 years and years, then months.
-/

namespace Timetable

structure Date where
  year : Int
  month : Nat
  day : Nat
  deriving DecidableEq

namespace Date

def isLeap (year : Int) : Bool :=
  year % 4 == 0 && (year % 100 != 0 || year % 400 == 0)

def daysInMonth (leap : Bool) : Nat → Nat
  | 2 => if leap then 29 else 28
  | 4 | 6 | 9 | 11 => 30
  | _ => 31

/-- The date exists. -/
def Valid (d : Date) : Prop :=
  1 ≤ d.month ∧ d.month ≤ 12 ∧ 1 ≤ d.day ∧ d.day ≤ daysInMonth (isLeap d.year) d.month

instance (d : Date) : Decidable d.Valid := by
  unfold Valid; infer_instance

/-- Days from 0001-01-01 to the first day of the year. -/
def daysBeforeYear (year : Int) : Int :=
  let y := year - 1
  365 * y + y / 4 - y / 100 + y / 400

/-- Days from the first day of the year to the first day of the month. -/
def daysBeforeMonth (leap : Bool) : Nat → Nat
  | 0 => 0
  | 1 => 0
  | m + 1 => daysBeforeMonth leap m + daysInMonth leap m

/-- Days from 0001-01-01 to 1970-01-01. -/
def epochDay : Int := 719162

/-- Days since 1970-01-01. -/
def toDay (d : Date) : Int :=
  daysBeforeYear d.year + daysBeforeMonth (isLeap d.year) d.month + d.day - 1 - epochDay

/-- The month and day of a day of the year, counted from zero. The search starts at `month` and looks
at `count` months more. -/
def monthAndDay (leap : Bool) : (count month yearDay : Nat) → Nat × Nat
  | 0, month, yearDay => (month, yearDay + 1)
  | count + 1, month, yearDay =>
    let length := daysInMonth leap month
    if yearDay < length then (month, yearDay + 1)
    else monthAndDay leap count (month + 1) (yearDay - length)

/-- The date of a day counted from 1970-01-01. -/
def ofDay (day : Int) : Date :=
  let z := day + epochDay
  let cycle := z / 146097
  let r := z % 146097
  let century := min (r / 36524) 3
  let r := r - 36524 * century
  let olympiad := r / 1461
  let r := r - 1461 * olympiad
  let rest := min (r / 365) 3
  let year := 400 * cycle + 100 * century + 4 * olympiad + rest + 1
  let (month, dayOfMonth) := monthAndDay (isLeap year) 11 1 (r - 365 * rest).toNat
  ⟨year, month, dayOfMonth⟩

def of? (year : Int) (month day : Nat) : Option Date :=
  if (⟨year, month, day⟩ : Date).Valid then some ⟨year, month, day⟩ else none

/-- The weekday of a day counted from 1970-01-01, a Thursday; Sunday is 0. -/
def weekday (day : Int) : Nat :=
  ((day + 4) % 7).toNat

/-- The years that instants can have. -/
def firstYear : Int := -262143

def lastYear : Int := 262142

end Date

end Timetable
