/-!
# Spans

Spans of time are counted in nanoseconds.
-/

namespace Timetable

/-- Nanoseconds in a second. -/
def giga : Nat := 1000000000

/-- Nanoseconds in a millisecond. -/
def mega : Nat := 1000000

end Timetable
