import Timetable.Json.Basic
import Timetable.Object.Error
import Timetable.Object.Meta

/-!
# Schedules

A schedule declares when work items are launched, from which template, and what becomes of those that
overlap or have finished; its status records the last launch and the active children.
-/

namespace Timetable

/-- What becomes of a launch while an earlier work item is active: launch anyway, skip the launch, or
delete the active ones first. -/
inductive Concurrency
  | allow
  | forbid
  | replace
  deriving DecidableEq

def Concurrency.name : Concurrency → String
  | .allow => "Allow"
  | .forbid => "Forbid"
  | .replace => "Replace"

/-- The work item to launch; its `spec` is copied as it is. -/
structure Template where
  labels : Labels
  annotations : Labels
  spec : Json
  deriving DecidableEq

structure ScheduleSpec where
  schedule : String
  concurrency : Concurrency
  suspend : Bool
  /-- Missed runs older than this many seconds are given up. -/
  startingDeadline : Option Int
  successfulLimit : Option Nat
  failedLimit : Option Nat
  template : Template
  deriving DecidableEq

structure ScheduleStatus where
  lastScheduled : Option Instant
  active : List ObjectReference
  deriving DecidableEq

def ScheduleStatus.initial : ScheduleStatus := ⟨none, []⟩

structure Schedule where
  metadata : Meta
  spec : ScheduleSpec
  status : ScheduleStatus
  deriving DecidableEq

namespace Schedule

/-- The length of the suffix of a child's name: a dash and ten digits. -/
def childSuffixLength : Nat := 11

/-- The longest name whose children have valid names. -/
def maxNameLength : Nat := Name.maxLength - childSuffixLength

def defaultSuccessfulLimit : Nat := 3

def defaultFailedLimit : Nat := 1

/-- The longest deadline in seconds: a signed word of 64 bits in milliseconds. -/
def longestDeadline : Int := Text.maxSigned64 / 1000

def startingDeadline (s : Schedule) : Except ObjectError (Option Int) :=
  match s.spec.startingDeadline with
  | none => .ok none
  | some seconds =>
    if seconds < 0 then .error (.invalidField (.negativeDeadline seconds))
    else if longestDeadline < seconds then .error (.invalidField (.hugeDeadline seconds))
    else .ok (some (seconds * giga))

/-- The name leaves room for the suffix of its children. -/
def validateName (s : Schedule) : Except ObjectError Unit :=
  let length := s.metadata.name.utf8ByteSize
  if maxNameLength < length then .error (.invalidField (.longName maxNameLength length)) else .ok ()

/-- Refuses what the form of a manifest alone does not exclude. -/
def validate (s : Schedule) : Except ObjectError Unit := do
  s.validateName
  let _ ← s.startingDeadline
  .ok ()

/-- The reference by which a child names the schedule as its controller. -/
def controllerReference (s : Schedule) : OwnerReference :=
  ⟨Kind.schedule.name, s.metadata.name, s.metadata.uid, true⟩

/-- Sets the history limits that were left open. -/
def withDefaults (s : Schedule) : Schedule :=
  { s with spec := { s.spec with
      successfulLimit := s.spec.successfulLimit.orElse fun _ => some defaultSuccessfulLimit
      failedLimit := s.spec.failedLimit.orElse fun _ => some defaultFailedLimit } }

end Schedule

end Timetable
