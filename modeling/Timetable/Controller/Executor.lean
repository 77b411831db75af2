import Timetable.Controller.Client

/-!
# The simulated backend

It stands in for what runs work items: pending ones start, running ones succeed once they have run long
enough.
-/

namespace Timetable.Executor

/-- The status an item takes on at `now`, if it moves; a runtime is in nanoseconds. -/
def advance (runtime : Int) (now : Instant) (w : WorkItem) : Option WorkItem :=
  match w.status.phase with
  | .pending => some { w with status := { w.status with phase := .running, started := some now } }
  | .running =>
    match (w.status.started.getD now).add? runtime with
    | some finish =>
      if now < finish then none
      else some { w with status := { w.status with phase := .succeeded, completed := some now } }
    | none => none
  | .succeeded | .failed => none

/-- Moves the items one by one and counts the moves. Items changed or deleted meanwhile are left alone,
any other error ends the round. -/
def moveAll (runtime : Int) (now : Instant) : (moved : Nat) → List WorkItem →
    Client (Except StoreError Nat)
  | moved, [] => .done (.ok moved)
  | moved, w :: rest =>
    match advance runtime now w with
    | none => moveAll runtime now moved rest
    | some next =>
      .writeItemStatus next fun
        | .ok _ => moveAll runtime now (moved + 1) rest
        | .error (.conflict ..) | .error (.notFound ..) => moveAll runtime now moved rest
        | .error e => .done (.error e)

def round (runtime : Int) : Client (Except StoreError Nat) :=
  .listItems fun items => .readClock fun now => moveAll runtime now 0 items

end Timetable.Executor
