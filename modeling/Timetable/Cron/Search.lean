import Timetable.Cron.Expr
import Timetable.Calendar.Instant

/-!
# The next fire

`Expr.nextAfter` finds the earliest fire strictly after an instant. For fields it searches the minutes
of the local clock, numbered from 1970, and skips whole months, days and hours that cannot match.
-/

namespace Timetable.Cron

def dayOf (minute : Int) : Int :=
  minute / 1440

def dateOf (minute : Int) : Date :=
  Date.ofDay (dayOf minute)

/-- The first minute of the month after a date. -/
def nextMonth (d : Date) : Int :=
  let first : Date := if d.month = 12 then ⟨d.year + 1, 1, 1⟩ else ⟨d.year, d.month + 1, 1⟩
  1440 * first.toDay

/-- Where to look next when a minute does not match: past the month, the day or the hour that the
fields exclude, or at the next minute. -/
def Fields.skip? (f : Fields) (minute : Int) : Option Int :=
  let date := dateOf minute
  if !f.month.contains date.month then some (nextMonth date)
  else if !f.allowsDay (dayOf minute) then some (1440 * (dayOf minute + 1))
  else if !f.hour.contains (minute / 60 % 24).toNat then some (60 * (minute / 60 + 1))
  else if !f.minute.contains (minute % 60).toNat then some (minute + 1)
  else none

/-- The first matching minute from `minute` on whose year is at most `lastYear`. -/
def Fields.search (f : Fields) (lastYear : Int) : (steps : Nat) → (minute : Int) → Option Int
  | 0, _ => none
  | steps + 1, minute =>
    if lastYear < (dateOf minute).year then none
    else match f.skip? minute with
      | none => some minute
      | some next => f.search lastYear steps next

/-- How many years after the year of the first minute are searched. -/
def horizonYears : Int := 5

/-- More steps than there are minutes up to the horizon. -/
def searchSteps : Nat := 6 * 366 * 1440 + 1

/-- The local minute after the one that holds an instant. -/
def minuteAfter (zone : Int) (t : Instant) : Int :=
  (t.second + zone) / 60 + 1

def minuteStart (zone minute : Int) : Instant :=
  .ofSecond (60 * minute - zone)

/-- A local minute lies in the calendar. -/
def InCalendar (minute : Int) : Prop :=
  (Instant.ofSecond (60 * minute)).Representable

instance (minute : Int) : Decidable (InCalendar minute) := by
  unfold InCalendar; infer_instance

/-- The last day of the calendar is allowed. -/
def Fields.allowsLastDay (f : Fields) : Bool :=
  f.month.contains 12 && f.allowsDay (Date.toDay ⟨Date.lastYear, 12, 31⟩)

inductive Upcoming
  | at (t : Instant)
  | never
  /-- A time past the end of the calendar has to be looked at; a pass that meets one is aborted. -/
  | beyond
  deriving DecidableEq

/-- The earliest fire in the minutes that follow an instant. The calendar holds the local minute of the
instant and the next one, or there is nothing to search. Where the minutes of the last day have to be
looked through in vain, the next one lies beyond the calendar; months and days simply come to an end. -/
def Fields.nextAfter (f : Fields) (zone : Int) (t : Instant) : Upcoming :=
  let start := minuteAfter zone t
  if ¬InCalendar (start - 1) ∨ ¬InCalendar start then .beyond
  else
    match f.search ((dateOf start).year + horizonYears) searchSteps start with
    | none => .never
    | some minute =>
      let fire := minuteStart zone minute
      if ¬InCalendar minute then if f.allowsLastDay then .beyond else .never
      else if fire.Representable then .at fire
      else .never

/-- The earliest fire strictly after an instant. A period counts from the beginning of its second. -/
def Expr.nextAfter (e : Expr) (t : Instant) : Upcoming :=
  match e.plan with
  | .fields f => f.nextAfter e.zone t
  | .every seconds =>
    match t.truncate.add? (seconds * giga) with
    | some fire => .at fire
    | none => .beyond

end Timetable.Cron
