import Timetable.Queue.Basic

/-!
# Waiting for the queue

Tasks wait in line for a key, each with a timer for the earliest deadline that it knows of; others wait
until a closed queue is drained. A task looks when an operation wakes those who wait and when its timer is
up. The clock moves from timer to timer.
-/

namespace Timetable

/-- A task that waits for a key, with the time at which it looks again by itself. -/
structure Waiter (ι : Type) where
  id : ι
  timer : Option Nat
  deriving DecidableEq

/-- A task that closed the queue and waits until it is drained. -/
inductive Drain
  /-- It looks next. -/
  | called
  | asleep
  | returned
  deriving DecidableEq

/-- A queue with the tasks that wait for it and the answers that were not collected. -/
structure Lobby (κ ι : Type) where
  queue : WorkQueue κ
  now : Nat
  /-- The tasks that want a key and look next, in order. -/
  ready : List ι
  /-- The tasks that sleep until there may be a key, in the order in which they started. -/
  waiters : List (Waiter ι)
  answers : List (ι × WorkQueue.Look κ)
  drains : List Drain

namespace Drain
variable {κ : Type}

def wake : Drain → Drain
  | asleep => called
  | d => d

/-- A task that looks returns if the queue is drained, and sleeps if it is not. -/
def check (q : WorkQueue κ) : Drain → Drain
  | called => if q.isDrained then returned else asleep
  | d => d

end Drain

namespace Lobby
variable {κ ι : Type} [DecidableEq κ] [DecidableEq ι]

def new (policy : BackoffPolicy) : Lobby κ ι :=
  ⟨.new policy, 0, [], [], [], []⟩

/-- Whether the task that last began to wait for the drained queue has returned. -/
def drained (l : Lobby κ ι) : Option Bool :=
  l.drains.getLast?.map (· == .returned)

/-- A task looks at the queue. It goes on with an answer, or it waits with a timer for the earliest
deadline. -/
def look (l : Lobby κ ι) (id : ι) : Lobby κ ι :=
  match l.queue.get l.now with
  | (.empty, queue) => { l with queue, waiters := l.waiters ++ [⟨id, queue.nextDeadline⟩] }
  | (answer, queue) => { l with queue, answers := l.answers ++ [(id, answer)] }

/-- Those who sleep are called. -/
def wake (l : Lobby κ ι) : Lobby κ ι :=
  { l with
    ready := l.ready ++ l.waiters.map (·.id)
    waiters := []
    drains := l.drains.map .wake }

/-- Takes over the result of an operation on the queue. -/
def accept (l : Lobby κ ι) (result : WorkQueue κ × Bool) : Lobby κ ι :=
  let l := { l with queue := result.1 }
  if result.2 then l.wake else l

/-- All who were called look: first those who want a key, then those who wait for the drained queue. -/
def settle (l : Lobby κ ι) : Lobby κ ι :=
  let l := l.ready.foldl look { l with ready := [] }
  { l with drains := l.drains.map (.check l.queue) }

/-- An operation on the queue, after which all who were called look. -/
def after (l : Lobby κ ι) (result : WorkQueue κ × Bool) : Lobby κ ι :=
  (l.accept result).settle

/-- Whether the time has come at which a task looks again by itself. -/
def isUp (l : Lobby κ ι) (w : Waiter ι) : Bool :=
  w.timer.any (· ≤ l.now)

/-- Those whose timers are up are called. -/
def ring (l : Lobby κ ι) : Lobby κ ι :=
  { l with
    ready := l.ready ++ (l.waiters.filter l.isUp).map (·.id)
    waiters := l.waiters.filter fun w => !l.isUp w }

/-- Those whose timers are up look; the others keep their places before them. -/
def fire (l : Lobby κ ι) : Lobby κ ι :=
  l.ring.settle

def nextTimer (l : Lobby κ ι) : Option Nat :=
  (l.waiters.filterMap (·.timer)).min?

/-- Moves the clock to a time, from timer to timer. Every timer takes a delayed key off the queue, so as
many steps as there are delayed keys suffice. -/
def advance : (steps : Nat) → (target : Nat) → Lobby κ ι → Lobby κ ι
  | 0, target, l => { l with now := max l.now target }
  | steps + 1, target, l =>
    match l.nextTimer with
    | some t =>
      if t ≤ target then advance steps target { l with now := max l.now t }.fire
      else { l with now := max l.now target }
    | none => { l with now := max l.now target }

def sleepUntil (l : Lobby κ ι) (target : Nat) : Lobby κ ι :=
  advance (l.queue.waiting.length + 1) target l

def spawn (l : Lobby κ ι) (id : ι) : Lobby κ ι :=
  l.look id

def answer? (l : Lobby κ ι) (id : ι) : Option (WorkQueue.Look κ) :=
  l.answers.lookup id

/-- Takes the answer of a task, or takes the task out of the line. -/
def collect (l : Lobby κ ι) (id : ι) : Option (WorkQueue.Look κ) × Lobby κ ι :=
  (l.answer? id, { l with
    answers := l.answers.filter fun e => e.1 ≠ id
    waiters := l.waiters.filter fun w => w.id ≠ id })

/-- The caller of `get` looks. While it waits it stands at the head of the line. -/
def lookFirst (l : Lobby κ ι) (id : ι) : Lobby κ ι :=
  match l.queue.get l.now with
  | (.empty, queue) => { l with queue, waiters := ⟨id, queue.nextDeadline⟩ :: l.waiters }
  | (answer, queue) => { l with queue, answers := l.answers ++ [(id, answer)] }

/-- A task waits for a key until it gets one or the time is up; the clock stops when it has an answer. -/
def waitFor (id : ι) : (steps : Nat) → (target : Nat) → Lobby κ ι → Lobby κ ι
  | 0, target, l => { l with now := max l.now target }
  | steps + 1, target, l =>
    if (l.answer? id).isSome then l
    else
      match l.nextTimer with
      | some t =>
        if t ≤ target then waitFor id steps target { l with now := max l.now t }.fire
        else { l with now := max l.now target }
      | none => { l with now := max l.now target }

/-- The caller waits for a key for a span of time. The first part tells what came, if anything did. -/
def get (l : Lobby κ ι) (id : ι) (span : Nat) : Option (WorkQueue.Look κ) × Lobby κ ι :=
  (waitFor id (l.queue.waiting.length + 2) (l.now + span) (l.lookFirst id)).collect id

/-- A task closes the queue and waits until it is drained. -/
def drain (l : Lobby κ ι) : Lobby κ ι :=
  { l with drains := l.drains ++ [Drain.called] }.after l.queue.shutDown

end Lobby

end Timetable
