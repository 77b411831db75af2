import Timetable.Calendar.Rfc3339
import Timetable.Cron.Missed
import Timetable.Store.Basic

/-!
# Notices

What a pass tells the operators about a schedule. Every kind of notice has a reason, a severity and a
wording.
-/

namespace Timetable

inductive Notice
  | created (child : String)
  | deleted (child : String)
  | completed (child : String) (phase : Phase)
  | pastDeadline (fire : Instant)
  | stillActive (fire : Instant) (count : Nat)
  | unparseable (source : String) (cause : Cron.CronError)
  | badDeadline (cause : ObjectError)
  | unschedulable (cause : Cron.ScheduleError)
  | badTemplate (cause : ObjectError)
  | createFailed (child : String) (cause : StoreError)
  | deleteFailed (child : String) (cause : StoreError)
  | statusFailed (cause : StoreError)
  deriving DecidableEq

namespace Notice

def reason : Notice → String
  | created _ => "SuccessfulCreate"
  | deleted _ => "SuccessfulDelete"
  | completed .. => "SawCompletedJob"
  | pastDeadline _ => "MissSchedule"
  | stillActive .. => "JobAlreadyActive"
  | unparseable .. | badDeadline _ => "InvalidSchedule"
  | unschedulable (.tooManyMissed _) => "TooManyMissedRuns"
  | unschedulable _ => "InvalidSchedule"
  | badTemplate _ => "InvalidTemplate"
  | createFailed .. => "FailedCreate"
  | deleteFailed .. => "FailedDelete"
  | statusFailed _ => "FailedUpdateStatus"

def isWarning : Notice → Bool
  | created _ | deleted _ | completed .. | stillActive .. => false
  | _ => true

def message : Notice → String
  | created child => s!"Created work item {child}"
  | deleted child => s!"Deleted work item {child}"
  | completed child phase => s!"Saw completed work item {child}, phase {phase.name}"
  | pastDeadline fire => s!"Missed scheduled time {fire.display} past the starting deadline"
  | stillActive fire count =>
    s!"Not starting run for {fire.display}: {count} work item(s) still active"
  | unparseable source cause => s!"Unparseable schedule '{source}': {cause.message}"
  | badDeadline cause => cause.message
  | unschedulable cause => cause.message
  | badTemplate cause => cause.message
  | createFailed child cause => s!"Failed to create work item {child}: {cause.message}"
  | deleteFailed child cause => s!"Failed to delete work item {child}: {cause.message}"
  | statusFailed cause => s!"Failed to update status: {cause.message}"

end Notice

/-- A notice about the schedule of a key. -/
structure Record where
  object : Key
  notice : Notice
  deriving DecidableEq

/-- How many notices there are of each reason. -/
def Record.tally (records : List Record) : List (String × Nat) :=
  let reasons := records.map (·.notice.reason)
  reasons.eraseDups.map fun r => (r, reasons.count r)

end Timetable
