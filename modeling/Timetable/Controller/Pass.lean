import Timetable.Controller.Client
import Timetable.Cron.Parser
import Timetable.Object.History

/-!
# One pass over a schedule

A pass looks at a schedule and its children and brings the store closer to what the schedule declares: it
writes the status, prunes finished children, and launches at most one work item for the latest missed
fire. It says when to look again.
-/

namespace Timetable

/-- What a pass asks for: nothing until something changes, or another pass after some nanoseconds. -/
inductive Action
  | done
  | requeueAfter (delay : Nat)
  deriving DecidableEq

/-- How a pass ends. An aborted pass met a time that cannot be represented. -/
inductive Outcome
  | finished (a : Action)
  | failed (cause : StoreError)
  | aborted
  deriving DecidableEq

/-- How an operator reads the cause of a failed pass. -/
def Outcome.explain (cause : StoreError) : String :=
  s!"store error: {cause.message}"

/-- A schedule with the work items that it controls, as some reader sees them. -/
structure View where
  schedule : Schedule
  children : List WorkItem
  deriving DecidableEq

namespace Pass

/-- The active references whose work items have finished since, with these work items. -/
def completed (view : View) : List WorkItem :=
  let buckets := Buckets.ofItems view.children
  view.schedule.status.active.filterMap fun r =>
    (buckets.succeeded ++ buckets.failed).find? fun w => w.metadata.uid == r.uid

def noteAll (key : Key) (notices : List Notice) : Client Unit :=
  notices.foldr (fun n rest => .note ⟨key, n⟩ rest) (.done ())

/-- Writes the status that the children imply, if it differs, and gives the schedule as stored. -/
def writeStatus (key : Key) (view : View) : Client (Except StoreError Schedule) := do
  noteAll key ((completed view).map fun w => .completed w.metadata.name w.status.phase)
  let status := view.schedule.desiredStatus view.children
  if status = view.schedule.status then return .ok view.schedule
  else
    .writeScheduleStatus { view.schedule with status } fun
      | .ok written => .done (.ok written)
      | .error e => .note ⟨key, .statusFailed e⟩ (.done (.error e))

/-- Deletes a child; one that is gone already needs no notice. -/
def deleteChild (key : Key) (w : WorkItem) : Client Unit :=
  .deleteItem w.metadata.key fun
    | .ok () => .note ⟨key, .deleted w.metadata.name⟩ (.done ())
    | .error (.notFound ..) => .done ()
    | .error e => .note ⟨key, .deleteFailed w.metadata.name e⟩ (.done ())

def deleteAll (key : Key) : List WorkItem → Client Unit
  | [] => .done ()
  | w :: rest => (deleteChild key w).andThen fun () => deleteAll key rest

/-- The finished children beyond the limits, failed ones first, each bucket oldest first. -/
def excess (spec : ScheduleSpec) (children : List WorkItem) : List WorkItem :=
  let buckets := Buckets.ofItems children
  let beyond (limit : Option Nat) (items : List WorkItem) : List WorkItem :=
    match limit with
    | none => []
    | some n => oldestExcess (·.status.started) n items
  beyond spec.failedLimit buckets.failed ++ beyond spec.successfulLimit buckets.succeeded

/-- What the expression and the deadline of a schedule ask for at `now`. -/
inductive Verdict
  | decided (d : Cron.Decision) (deadline : Option Int)
  | refused (n : Notice)
  | aborted

def judge (cap : Nat) (s : Schedule) (now : Instant) : Verdict :=
  match Cron.Expr.parse s.spec.schedule with
  | .error .overlongPeriod => .aborted
  | .error e => .refused (.unparseable s.spec.schedule e)
  | .ok expr =>
    match s.startingDeadline with
    | .error e => .refused (.badDeadline e)
    | .ok deadline =>
      match expr.decision cap (s.status.lastScheduled.getD s.metadata.created) deadline now with
      | .error .beyondCalendar => .aborted
      | .error e => .refused (.unschedulable e)
      | .ok d => .decided d deadline

def isLate (fire : Instant) (deadline : Option Int) (now : Instant) : Bool :=
  match deadline.bind fire.add? with
  | some expiry => expiry < now
  | none => false

/-- Launches the work item of a fire. One that is there already was launched before. -/
def launch (key : Key) (s : Schedule) (fire : Instant) (wait : Action) : Client Outcome :=
  match WorkItem.ofTemplate s fire with
  | .error e => .note ⟨key, .badTemplate e⟩ (.done (.finished .done))
  | .ok w =>
    .createItem w fun
      | .ok _ => .note ⟨key, .created w.metadata.name⟩ (.done (.finished wait))
      | .error (.alreadyExists ..) => .done (.finished wait)
      | .error e => .note ⟨key, .createFailed w.metadata.name e⟩ (.done (.failed e))

/-- Applies the deadline and the concurrency policy to a missed fire. -/
def serve (key : Key) (s : Schedule) (active : List WorkItem) (fire : Instant)
    (deadline : Option Int) (now : Instant) (wait : Action) : Client Outcome :=
  if isLate fire deadline now then .note ⟨key, .pastDeadline fire⟩ (.done (.finished wait))
  else
    match s.spec.concurrency, active with
    | .forbid, _ :: _ => .note ⟨key, .stillActive fire active.length⟩ (.done (.finished wait))
    | .replace, _ => (deleteAll key active).andThen fun () => launch key s fire wait
    | _, _ => launch key s fire wait

/-- What follows once the status is written and the history pruned. -/
def schedule (cap : Nat) (key : Key) (s : Schedule) (active : List WorkItem) : Client Outcome :=
  if s.spec.suspend then .done (.finished .done)
  else
    .readClock fun now =>
      match judge cap s now with
      | .aborted => .done .aborted
      | .refused n => .note ⟨key, n⟩ (.done (.finished .done))
      | .decided d deadline =>
        let wait := Action.requeueAfter (d.waitFrom now)
        match d.missed with
        | none => .done (.finished wait)
        | some fire => serve key s active fire deadline now wait

/-- The whole pass for a key; `view` is what is known of its schedule. -/
def run (cap : Nat) (key : Key) : (view : Option View) → Client Outcome
  | none => .done (.finished .done)
  | some view =>
    (writeStatus key view).andThen fun
      | .error e => .done (.failed e)
      | .ok s =>
        (deleteAll key (excess s.spec view.children)).andThen fun () =>
          schedule cap key s (Buckets.ofItems view.children).active

end Pass

end Timetable
