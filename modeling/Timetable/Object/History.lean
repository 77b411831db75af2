import Timetable.Object.WorkItem

/-!
# Children of a schedule

`Buckets` sorts children by phase, `oldestExcess` picks those beyond a history limit, and
`Schedule.desiredStatus` is the status that the children imply.
-/

namespace Timetable

/-- Children by phase: pending or running ones are active. -/
structure Buckets where
  active : List WorkItem
  succeeded : List WorkItem
  failed : List WorkItem
  deriving DecidableEq

namespace Buckets

/-- Each bucket keeps the order of the items. -/
def ofItems (items : List WorkItem) : Buckets where
  active := items.filter fun w => !w.status.phase.isTerminal
  succeeded := items.filter fun w => w.status.phase == .succeeded
  failed := items.filter fun w => w.status.phase == .failed

end Buckets

/-- Whether an item started no later than another; one without a start time comes before all others. -/
def startsBefore : Option Instant → Option Instant → Bool
  | none, _ => true
  | some _, none => false
  | some s, some t => s ≤ t

/-- The oldest items beyond the limit, oldest first; items with the same start keep their order. -/
def oldestExcess {α : Type} (start : α → Option Instant) (limit : Nat) (items : List α) : List α :=
  (items.mergeSort fun a b => startsBefore (start a) (start b)).take (items.length - limit)

def latest (times : List Instant) : Option Instant :=
  times.max?

/-- The latest readable fire time among the children. -/
def latestScheduled (children : List WorkItem) : Option Instant :=
  latest (children.filterMap fun w => w.scheduledTime.toOption)

namespace Schedule

/-- The status that the children imply: the last launch is no earlier than the creation, the recorded
last launch and the fire times of the children; the active children are sorted. -/
def desiredStatus (s : Schedule) (children : List WorkItem) : ScheduleStatus where
  lastScheduled := latest (s.metadata.created ::
    (s.status.lastScheduled.toList ++ (latestScheduled children).toList))
  active := ((Buckets.ofItems children).active.map WorkItem.reference).mergeSort fun a b =>
    (compare a b).isLE

end Schedule

end Timetable
