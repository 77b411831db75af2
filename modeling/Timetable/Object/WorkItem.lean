import Timetable.Object.Schedule

/-!
# Work items

A work item is one run launched by a schedule for one fire time. The fire time is kept in an annotation,
which is written once at creation and read back to tell which fires have been served.
-/

namespace Timetable

inductive Phase
  | pending
  | running
  | succeeded
  | failed
  deriving DecidableEq

namespace Phase

def name : Phase → String
  | pending => "Pending"
  | running => "Running"
  | succeeded => "Succeeded"
  | failed => "Failed"

/-- A work item never leaves these phases. -/
def isTerminal : Phase → Bool
  | succeeded | failed => true
  | pending | running => false

end Phase

structure WorkItemStatus where
  phase : Phase
  started : Option Instant
  completed : Option Instant
  deriving DecidableEq

def WorkItemStatus.initial : WorkItemStatus := ⟨.pending, none, none⟩

structure WorkItem where
  metadata : Meta
  spec : Json
  status : WorkItemStatus
  deriving DecidableEq

namespace WorkItem

/-- The annotation with the fire time of a work item. -/
def scheduledAt : String := "cadence.dev/scheduled-at"

/-- The label with the name of the schedule. -/
def scheduleName : String := "cadence.dev/schedule-name"

/-- The name of the child launched for a fire time. -/
def childName (schedule : String) (fire : Instant) : String :=
  schedule ++ "-" ++ toString fire.second

/-- The child of a schedule for a fire time. -/
def ofTemplate (s : Schedule) (fire : Instant) : Except ObjectError WorkItem := do
  let template := s.spec.template
  if template.spec = .null then .error (.invalidManifest .schedule .noTemplateSpec)
  let name := childName s.metadata.name fire
  (Name.validate name).mapError .invalidIdentity
  .ok {
    metadata := { Meta.new s.metadata.space name .blank with
      labels := template.labels.insert scheduleName s.metadata.name
      annotations := template.annotations.insert scheduledAt fire.renderSeconds
      owners := [s.controllerReference] }
    spec := template.spec
    status := .initial }

def parseScheduledTime (value : String) : Except ObjectError Instant :=
  (Instant.readStrict value).mapError (.badScheduledTime value)

def scheduledTime (w : WorkItem) : Except ObjectError Instant :=
  match w.metadata.annotations[scheduledAt]? with
  | none => .error .noScheduledTime
  | some value => parseScheduledTime value

def reference (w : WorkItem) : ObjectReference :=
  ⟨Kind.workItem.name, w.metadata.space, w.metadata.name, w.metadata.uid⟩

end WorkItem

end Timetable
