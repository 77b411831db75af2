import Timetable.Calendar.Rfc3339
import Timetable.Object.Basic

/-!
# Writing manifests

Every structure is written as an object with its members in the order of their names. Empty maps, empty
lists and open values are left out.
-/

namespace Timetable.Manifest

/-- A member that is left out if the value is open. -/
def optional {α : Type} (name : String) (write : α → Json) : Option α → List (String × Json)
  | none => []
  | some a => [(name, write a)]

/-- A member that is left out if the list is empty. -/
def nonempty {α : Type} (name : String) (write : α → Json) : List α → List (String × Json)
  | [] => []
  | xs => [(name, .arr (xs.map write))]

def writeTime (t : Instant) : Json := .str t.render

def writeNat (n : Nat) : Json := .int n

def writeLabels (name : String) (labels : Labels) : List (String × Json) :=
  if labels.isEmpty then [] else [(name, .obj (labels.toList.map fun (k, v) => (k, .str v)))]

def writeOwner (r : OwnerReference) : Json :=
  .obj [("controller", .bool r.controller), ("kind", .str r.kind), ("name", .str r.name),
    ("uid", .str r.uid.render)]

def writeReference (r : ObjectReference) : Json :=
  .obj [("kind", .str r.kind), ("name", .str r.name), ("namespace", .str r.space),
    ("uid", .str r.uid.render)]

def writeMeta (m : Meta) : Json :=
  .obj (writeLabels "annotations" m.annotations ++ [("creationTimestamp", writeTime m.created)] ++
    writeLabels "labels" m.labels ++ [("name", .str m.name), ("namespace", .str m.space)] ++
    nonempty "ownerReferences" writeOwner m.owners ++
    [("resourceVersion", writeNat m.version), ("uid", .str m.uid.render)])

def writeTemplate (t : Template) : Json :=
  .obj (writeLabels "annotations" t.annotations ++ writeLabels "labels" t.labels ++
    [("spec", t.spec)])

def writeScheduleSpec (s : ScheduleSpec) : Json :=
  .obj ([("concurrencyPolicy", .str s.concurrency.name)] ++
    optional "failedHistoryLimit" writeNat s.failedLimit ++
    [("schedule", .str s.schedule)] ++
    optional "startingDeadlineSeconds" .int s.startingDeadline ++
    optional "successfulHistoryLimit" writeNat s.successfulLimit ++
    [("suspend", .bool s.suspend), ("template", writeTemplate s.template)])

def writeScheduleStatus (s : ScheduleStatus) : Json :=
  .obj (nonempty "active" writeReference s.active ++
    optional "lastScheduleTime" writeTime s.lastScheduled)

def writeWorkItemStatus (s : WorkItemStatus) : Json :=
  .obj (optional "completionTime" writeTime s.completed ++ [("phase", .str s.phase.name)] ++
    optional "startTime" writeTime s.started)

def apiVersion : String := "cadence.dev/v1"

/-- A whole manifest, with its format and kind. -/
def write (o : Object) : Json :=
  let head : List (String × Json) := [("apiVersion", .str apiVersion), ("kind", .str o.kind.name)]
  match o with
  | .schedule s => .obj (head ++ [("metadata", writeMeta s.metadata),
      ("spec", writeScheduleSpec s.spec), ("status", writeScheduleStatus s.status)])
  | .workItem w => .obj (head ++ [("metadata", writeMeta w.metadata), ("spec", w.spec),
      ("status", writeWorkItemStatus w.status)])

end Timetable.Manifest
