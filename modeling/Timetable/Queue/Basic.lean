import Timetable.Queue.Backoff

/-!
# The work queue

A queue of keys for a pool of workers. A key is handed out to one worker at a time: while it is worked on,
adding it only marks it, and it is queued again when the worker is done. Delayed keys wait with a
deadline until somebody looks. Times are nanoseconds of a clock that never goes back.

An operation says whether it wakes those who wait for the queue.
-/

namespace Timetable

structure WorkQueue (κ : Type) where
  /-- The keys to hand out, in order. -/
  queue : List κ
  /-- The keys that were added and not handed out since. -/
  dirty : List κ
  /-- The keys that were handed out and are not done. -/
  processing : List κ
  /-- The delayed keys with their deadlines. -/
  waiting : List (κ × Nat)
  failures : Failures κ
  /-- No further key is accepted. -/
  closed : Bool

namespace WorkQueue
variable {κ : Type} [DecidableEq κ]

def new (policy : BackoffPolicy) : WorkQueue κ :=
  ⟨[], [], [], [], .new policy, false⟩

def without (keys : List κ) (k : κ) : List κ :=
  keys.filter (· ≠ k)

def withKey (keys : List κ) (k : κ) : List κ :=
  if k ∈ keys then keys else keys ++ [k]

/-- Marks a key and queues it unless it is being worked on. Those who wait are woken if it was queued. -/
def add (q : WorkQueue κ) (k : κ) : WorkQueue κ × Bool :=
  if q.closed ∨ k ∈ q.dirty then (q, false)
  else
    let q := { q with dirty := q.dirty ++ [k] }
    if k ∈ q.processing then (q, false) else ({ q with queue := q.queue ++ [k] }, true)

/-- Lets a key wait until a deadline, or until the one it already has if that is earlier. -/
def await (q : WorkQueue κ) (k : κ) (deadline : Nat) : WorkQueue κ :=
  match q.waiting.lookup k with
  | none => { q with waiting := q.waiting ++ [(k, deadline)] }
  | some _ =>
    { q with waiting := q.waiting.map fun e => if e.1 = k then (k, min e.2 deadline) else e }

def addAfter (q : WorkQueue κ) (now : Nat) (k : κ) (delay : Nat) : WorkQueue κ × Bool :=
  if delay = 0 then q.add k
  else if q.closed then (q, false)
  else (q.await k (now + delay), true)

/-- Counts a failure of a key and adds it after the delay that its failures call for. -/
def addRateLimited (q : WorkQueue κ) (now : Nat) (k : κ) : WorkQueue κ × Bool :=
  let (delay, failures) := q.failures.record k
  { q with failures }.addAfter now k delay

/-- Starts counting the failures of a key anew. -/
def forget (q : WorkQueue κ) (k : κ) : WorkQueue κ :=
  { q with failures := q.failures.forget k }

def requeues (q : WorkQueue κ) (k : κ) : Nat :=
  q.failures.count k

/-- The delayed keys that are due, in the order of their deadlines. -/
def due (q : WorkQueue κ) (now : Nat) : List (κ × Nat) :=
  (q.waiting.filter (·.2 ≤ now)).mergeSort fun a b => a.2 ≤ b.2

def promote (q : WorkQueue κ) (now : Nat) : WorkQueue κ :=
  (q.due now).foldl (fun q e => ({ q with waiting := q.waiting.filter (·.1 ≠ e.1) }.add e.1).1) q

def nextDeadline (q : WorkQueue κ) : Option Nat :=
  (q.waiting.map (·.2)).min?

/-- What a look at the queue gives: a key, the news that there will be no more, or nothing yet. -/
inductive Look (κ : Type)
  | key (k : κ)
  | closed
  | empty
  deriving DecidableEq

/-- Queues what is due and hands out the first key. -/
def get (q : WorkQueue κ) (now : Nat) : Look κ × WorkQueue κ :=
  let q := q.promote now
  match q.queue with
  | k :: rest =>
    (.key k, { q with
      queue := rest
      dirty := without q.dirty k
      processing := withKey q.processing k })
  | [] => (if q.closed then .closed else .empty, q)

/-- Ends the work on a key; if it was marked meanwhile it is queued again. -/
def done (q : WorkQueue κ) (k : κ) : WorkQueue κ × Bool :=
  let q := { q with processing := without q.processing k }
  (if k ∈ q.dirty then { q with queue := q.queue ++ [k] } else q, true)

/-- Accepts no further key and drops the delayed ones. -/
def shutDown (q : WorkQueue κ) : WorkQueue κ × Bool :=
  ({ q with closed := true, waiting := [] }, true)

def isDrained (q : WorkQueue κ) : Bool :=
  q.queue.isEmpty && q.processing.isEmpty

end WorkQueue

end Timetable
