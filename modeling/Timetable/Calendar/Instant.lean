import Timetable.Calendar.Date
import Timetable.Calendar.Span

/-!
# Instants

An instant counts seconds of UTC since 1970 and nanoseconds within the second. A leap second has no
count of its own: it is the second before it with 10⁹ nanoseconds or more. Spans are integers of
nanoseconds.
-/

namespace Timetable

structure Instant where
  second : Int
  nano : Nat
  nano_lt : nano < 2000000000 := by decide
  deriving DecidableEq

namespace Instant

instance : LE Instant := ⟨fun a b => a.second < b.second ∨ (a.second = b.second ∧ a.nano ≤ b.nano)⟩

instance : LT Instant := ⟨fun a b => a.second < b.second ∨ (a.second = b.second ∧ a.nano < b.nano)⟩

instance (a b : Instant) : Decidable (a ≤ b) :=
  inferInstanceAs (Decidable (a.second < b.second ∨ (a.second = b.second ∧ a.nano ≤ b.nano)))

instance (a b : Instant) : Decidable (a < b) :=
  inferInstanceAs (Decidable (a.second < b.second ∨ (a.second = b.second ∧ a.nano < b.nano)))

instance : Max Instant := maxOfLe

def ofSecond (s : Int) : Instant :=
  ⟨s, 0, by decide⟩

instance : Inhabited Instant := ⟨ofSecond 0⟩

/-- The instant a number of nanoseconds after 1970, outside leap seconds. -/
def ofNanos (n : Int) : Instant :=
  ⟨n / giga, (n % giga).toNat, by unfold giga; omega⟩

def isLeap (t : Instant) : Bool :=
  giga ≤ t.nano

def firstSecond : Int := 86400 * Date.toDay ⟨Date.firstYear, 1, 1⟩

/-- The second after the last of the calendar. -/
def endSecond : Int := 86400 * Date.toDay ⟨Date.lastYear + 1, 1, 1⟩

/-- The year lies between `Date.firstYear` and `Date.lastYear`. -/
def Representable (t : Instant) : Prop :=
  firstSecond ≤ t.second ∧ t.second < endSecond

instance (t : Instant) : Decidable t.Representable := by
  unfold Representable; infer_instance

def truncate (t : Instant) : Instant :=
  ofSecond t.second

/-- The instant a span later. A leap second is left at its end by going forward and at its beginning by
going back; a span that stays within it, or within the second before, only moves the fraction. -/
def shift (t : Instant) (span : Int) : Instant :=
  let whole := span.tdiv giga
  let frac := span.tmod giga
  if t.nano < giga then ofNanos (t.second * giga + t.nano + span)
  else if h : 0 < whole ∨ (0 < frac ∧ 2 * giga ≤ t.nano + frac) then
    ofNanos (t.second * giga + (t.nano - giga : Nat) + span)
  else if whole < 0 then ofNanos ((t.second + 1) * giga + (t.nano - giga : Nat) + span)
  else ⟨t.second, (t.nano + frac).toNat, by have := t.nano_lt; unfold giga at h; omega⟩

/-- The instant a span later, if the calendar reaches it. -/
def add? (t : Instant) (span : Int) : Option Instant :=
  let u := t.shift span
  if u.Representable then some u else none

/-- The span from `b` to `a`. A leap second between the two is counted when the clock times of day
enclose it. -/
def since (a b : Instant) : Int :=
  let clockA := a.second % 86400
  let clockB := b.second % 86400
  let leap : Int :=
    if clockB < clockA && b.isLeap then 1
    else if clockA < clockB && a.isLeap then -1
    else 0
  (a.second - b.second + leap) * giga + ((a.nano : Int) - b.nano)

def date (t : Instant) : Date :=
  Date.ofDay (t.second / 86400)

end Instant

end Timetable
