import Timetable.Controller.Pass
import Timetable.Queue.Basic
import Timetable.Replica.Basic

/-!
# The worker pool

Events of a replica put the keys of the schedules they concern into a work queue. A worker takes a key, runs
a pass and, by its outcome, forgets the failures of the key, adds it again later, or both.
-/

namespace Timetable

/-- A schedule and the children that it controls, as a replica has them. -/
def Replica.view? (r : Replica) (key : Key) : Option View :=
  r.objects.schedules[key]?.map fun s =>
    ⟨s, (r.childrenOf s.metadata.key).filter fun w => w.metadata.isControlledBy s.metadata⟩

namespace WorkQueue

/-- Adds the schedule that an event concerns. -/
def enqueueOwner (q : WorkQueue Key) (e : Event) : WorkQueue Key :=
  match e.schedule? with
  | some key => (q.add key).1
  | none => q

/-- What a worker makes of the outcome of a pass. -/
def settleOutcome (q : WorkQueue Key) (now : Nat) (key : Key) : Outcome → WorkQueue Key
  | .finished .done => q.forget key
  | .finished (.requeueAfter delay) => ((q.forget key).addAfter now key delay).1
  | .failed _ | .aborted => (q.addRateLimited now key).1

/-- Ends the work on a key with the outcome of its pass. -/
def conclude (q : WorkQueue Key) (now : Nat) (key : Key) (outcome : Outcome) : WorkQueue Key :=
  ((q.settleOutcome now key outcome).done key).1

end WorkQueue

/-- A pass that takes time: its key, when it ends, and how. -/
structure SlowPass where
  key : Key
  finish : Nat
  outcome : Outcome
  deriving DecidableEq

/-- Workers with their queue. Some are idle, the others are in slow passes. -/
structure Pool where
  queue : WorkQueue Key
  idle : Nat
  slow : List SlowPass

namespace Pool

/-- A pool has at least one worker. -/
def new (workers : Nat) (policy : BackoffPolicy) : Pool :=
  ⟨.new policy, max workers 1, []⟩

/-- An idle worker looks at the queue and takes the key that it is handed, if any. -/
def take (p : Pool) (now : Nat) : Option Key × Pool :=
  if p.idle = 0 then (none, p)
  else match p.queue.get now with
    | (.key k, queue) => (some k, { p with queue, idle := p.idle - 1 })
    | (_, queue) => (none, { p with queue })

def release (p : Pool) (now : Nat) (key : Key) (outcome : Outcome) : Pool :=
  { p with queue := p.queue.conclude now key outcome, idle := p.idle + 1 }

def hold (p : Pool) (pass : SlowPass) : Pool :=
  { p with slow := p.slow ++ [pass] }

def finish (p : Pool) (now : Nat) : Pool :=
  (p.slow.filter (·.finish ≤ now)).foldl (fun p s => p.release now s.key s.outcome)
    { p with slow := p.slow.filter (now < ·.finish) }

def shutDown (p : Pool) : Pool :=
  { p with queue := p.queue.shutDown.1 }

/-- When the pool goes on by itself: idle workers wait for the earliest deadline, the others for the end of
their passes. -/
def nextTimer (p : Pool) : Option Nat :=
  let deadlines := if p.idle = 0 then [] else p.queue.nextDeadline.toList
  (deadlines ++ p.slow.map (·.finish)).min?

end Pool

end Timetable
