import Timetable.Cron.Search

/-!
# Missed and upcoming runs

From the last launch and the present, `Expr.decision` finds the latest fire that was missed and the first one
to come. A starting deadline leaves fires out that are too old.
-/

namespace Timetable.Cron

inductive ScheduleError
  | tooManyMissed (cap : Nat)
  | unsatisfiable (source : String)
  /-- A fire past the end of the calendar; a pass that meets one is aborted. -/
  | beyondCalendar
  deriving DecidableEq

def ScheduleError.message : ScheduleError → String
  | .tooManyMissed cap =>
    s!"too many missed start times (> {cap}); check clock skew or the schedule"
  | .unsatisfiable source => s!"schedule '{source}' has no upcoming fire time"
  | .beyondCalendar => "fire time past the end of the calendar"

/-- The latest missed fire, if any, and the first fire after the present. -/
structure Decision where
  missed : Option Instant
  next : Instant
  deriving DecidableEq

/-- Nanoseconds from `now` to the next fire, never negative. -/
def Decision.waitFrom (d : Decision) (now : Instant) : Nat :=
  (d.next.since now).toNat

/-- How many missed fires are walked unless a limit is set. -/
def defaultCap : Nat := 100

/-- The latest fire in `(from, now]`, or `found` if there is none; at most `left` fires are walked. -/
def latestMissed (e : Expr) (now : Instant) (cap : Nat) :
    (left : Nat) → (found : Option Instant) → (start : Instant) →
      Except ScheduleError (Option Instant)
  | left, found, start =>
    match e.nextAfter start with
    | .beyond => .error .beyondCalendar
    | .never => .ok found
    | .at t =>
      if now < t then .ok found
      else match left with
        | 0 => .error (.tooManyMissed cap)
        | left + 1 => latestMissed e now cap left (some t) t

def upcoming (e : Expr) (now : Instant) : Except ScheduleError Instant :=
  match e.nextAfter now with
  | .at t => .ok t
  | .never => .error (.unsatisfiable e.source)
  | .beyond => .error .beyondCalendar

/-- The instant after which fires still count: the last launch, or the deadline before now if that is
later. A negative deadline counts as zero, one that reaches past the calendar bounds nothing. -/
def earliest (last : Instant) (deadline : Option Int) (now : Instant) : Instant :=
  match deadline.bind fun d => now.add? (-(max d 0)) with
  | some horizon => if last < horizon then horizon else last
  | none => last

/-- What an expression asks for at `now`, after a launch at `last`. -/
def Expr.decision (e : Expr) (cap : Nat) (last : Instant) (deadline : Option Int) (now : Instant) :
    Except ScheduleError Decision := do
  let start := earliest last deadline now
  let missed ← if now < start then .ok none else latestMissed e now cap cap none start
  .ok ⟨missed, ← upcoming e now⟩

end Timetable.Cron
