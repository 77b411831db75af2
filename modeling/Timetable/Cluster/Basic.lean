import Timetable.Controller.Executor
import Timetable.Controller.Pool
import Timetable.Replica.Feed

/-!
# A cluster in virtual time

A store, a replica fed from it, a worker pool and a simulated backend run together on one thread. All that
can happen at one time happens before the time moves, and then it moves to the next timer. Changes reach the
replica before the next key is worked on, and passes are not interrupted.
-/

namespace Timetable

/-- A pass that is played instead of computed. -/
inductive Play
  | done
  | requeue (delay : Nat)
  | fail
  | abort
  | slow (span : Nat)
  deriving DecidableEq

/-- The workers and what they run: passes over schedules, or plays in their order and then nothing. -/
structure Controller where
  pool : Pool
  /-- When the controller was started. -/
  started : Nat
  plays : Option (List Play)
  /-- The keys that were played with the times since the start, last first. -/
  calls : List (Key × Nat)

/-- The parameters of a cluster; times are nanoseconds. -/
structure Parameters where
  /-- How many missed fires a pass walks. -/
  cap : Nat
  /-- The period of redelivery. -/
  resync : Option Nat
  /-- How long work items run. -/
  runtime : Nat
  /-- The period of the simulated backend. -/
  poll : Nat
  /-- Whether the clock moves with the virtual time, from this instant on. -/
  clockStart : Option Instant
  /-- The UIDs that the store gives out. -/
  uids : Nat → Uid

structure Cluster where
  params : Parameters
  site : Site
  /-- How many UIDs were given out. -/
  minted : Nat
  time : Nat
  feed : Feed Watch
  /-- The events of the replica with their times, last first. -/
  events : List (Nat × Event)
  controller : Option Controller
  backend : Option Ticker

namespace Cluster

def new (params : Parameters) (clock : Instant) : Cluster where
  params
  site := ⟨.empty, clock, []⟩
  minted := 0
  time := 0
  feed := .new
  events := []
  controller := none
  backend := none

def store (c : Cluster) : Store := c.site.store

def runClient {α : Type} (c : Cluster) (client : Client α) : α × Cluster :=
  let (a, site, minted) := client.run c.params.uids c.site c.minted
  (a, { c with site, minted })

/-- Moves the time, and the clock with it if it follows. -/
def moveTo (c : Cluster) (time : Nat) : Cluster :=
  let time := max c.time time
  { c with
    time
    site := { c.site with clock := match c.params.clockStart with
      | some start => start.shift time
      | none => c.site.clock } }

/-! ## One time -/

/-- Lets the feed do what it can and hands its events on. -/
def settleFeed (c : Cluster) : Cluster :=
  let (events, feed, _) := c.feed.settle Store.source c.time c.store
  { c with
    feed
    events := (events.map (c.time, ·)).reverse ++ c.events
    controller := c.controller.map fun k =>
      { k with pool := { k.pool with queue := events.foldl WorkQueue.enqueueOwner k.pool.queue } } }

/-- Plays a pass for a key: the controller after it, and the outcome unless the pass takes time. -/
def playPass (now : Nat) (k : Controller) (key : Key) (plays : List Play) : Controller :=
  let k := { k with plays := some plays.tail, calls := (key, now - k.started) :: k.calls }
  let release (outcome : Outcome) : Controller := { k with pool := k.pool.release now key outcome }
  match plays.headD .done with
  | .done => release (.finished .done)
  | .requeue delay => release (.finished (.requeueAfter delay))
  | .fail => release (.failed (.unavailable "flaky"))
  | .abort => release .aborted
  | .slow span => { k with pool := k.pool.hold ⟨key, now + span, .finished .done⟩ }

def endSlow (c : Cluster) : Cluster :=
  { c with controller := c.controller.map fun k => { k with pool := k.pool.finish c.time } }

/-- Lets an idle worker take a key and run its pass. Tells whether there was a key. -/
def work (c : Cluster) : Bool × Cluster :=
  match c.controller with
  | none => (false, c)
  | some k =>
    let (taken, pool) := k.pool.take c.time
    let k := { k with pool }
    match taken, k.plays with
    | none, _ => (false, { c with controller := some k })
    | some key, some plays => (true, { c with controller := some (playPass c.time k key plays) })
    | some key, none =>
      let (outcome, c) := c.runClient (Pass.run c.params.cap key (c.feed.replica.view? key))
      (true, { c with controller := some { k with pool := k.pool.release c.time key outcome } })

/-- Lets the simulated backend do a round, if it is due. Tells whether it was. -/
def moveItems (c : Cluster) : Bool × Cluster :=
  match c.backend with
  | none => (false, c)
  | some t =>
    if c.time < t.next then (false, c)
    else
      let (_, c) := c.runClient (Executor.round c.params.runtime)
      (true, { c with backend := some (t.renew c.time) })

/-- Does all that can be done at one time, in at most so many rounds. In each round the replica catches up,
a worker takes a key, and the backend moves if it is due. -/
def settle : (rounds : Nat) → Cluster → Cluster
  | 0, c => c
  | rounds + 1, c =>
    let (worked, c) := c.settleFeed.endSlow.work
    let (moved, c) := c.moveItems
    if worked || moved then settle rounds c else c

/-- More rounds than passes come together at one time, unless passes ask for each other without end. -/
def roundLimit : Nat := 100000

/-! ## The course of time -/

def nextTimer (c : Cluster) : Option Nat :=
  (c.feed.nextTimer.toList ++ (c.controller.bind (·.pool.nextTimer)).toList ++
    (c.backend.map (·.next)).toList).min?

/-- Moves the time to a target, from timer to timer. Every step moves it, so as many steps as there are
nanoseconds suffice. -/
def advanceTo : (steps : Nat) → (target : Nat) → Cluster → Cluster
  | 0, target, c => c.moveTo target
  | steps + 1, target, c =>
    match c.nextTimer with
    | some t =>
      if t ≤ target then advanceTo steps target ((c.moveTo t).settle roundLimit)
      else c.moveTo target
    | none => c.moveTo target

def pass (c : Cluster) (span : Nat) : Cluster :=
  advanceTo (span + 1) (c.time + span) c

/-- How long to wait before looking again whether the replica has caught up. -/
def nap : Nat := 100 * mega

/-- The replica has taken in all changes, or nobody feeds it. -/
def isCaughtUp (c : Cluster) : Bool :=
  !c.feed.isRunning || (c.feed.synced && c.store.version ≤ c.feed.replica.lastSeen)

/-- Lets a nap go by. What is due at its end has not happened yet. -/
def rest (c : Cluster) : Cluster :=
  (c.pass (nap - 1)).moveTo (c.time + nap)

def catchUp : (naps : Nat) → Cluster → Cluster
  | 0, c => c
  | naps + 1, c => if c.isCaughtUp then c else catchUp naps c.rest

/-- Lets everything run until the replica has caught up with the store. A feed that was cut off lists
again after its pause, which is seen one nap after the end of the pause. -/
def sync (c : Cluster) : Cluster :=
  if c.feed.isRunning then
    (catchUp (2 * Feed.pause / nap) (c.settle roundLimit)).settle roundLimit
  else c

/-! ## Starting and stopping -/

def startFeed (c : Cluster) : Cluster :=
  ({ c with feed := c.feed.start c.time c.params.resync }).sync

def stopFeed (c : Cluster) : Cluster :=
  let c := c.sync
  { c with feed := c.feed.stop }

/-- Starts workers and the feed that wakes them. -/
def startController (c : Cluster) (workers : Nat) (policy : BackoffPolicy)
    (plays : Option (List Play)) : Cluster :=
  let k : Controller := ⟨.new workers policy, c.time, plays, []⟩
  ({ c with controller := some k }).startFeed

/-- Starts the simulated backend, which does a round before a worker takes a key. -/
def startBackend (c : Cluster) : Cluster :=
  let c := ({ c with backend := some ⟨c.params.poll, c.time⟩ }).settleFeed
  c.moveItems.2.settle roundLimit

/-- Lets the workers finish what was accepted. -/
def drainPool : (steps : Nat) → Cluster → Cluster
  | 0, c => c
  | steps + 1, c =>
    let c := c.settle roundLimit
    match c.controller.bind (·.pool.nextTimer) with
    | none => c
    | some t => drainPool steps (c.moveTo t)

/-- How many slow passes can still end. -/
def slowPasses (c : Cluster) : Nat :=
  match c.controller with
  | none => 0
  | some k => k.pool.slow.length + (k.plays.getD []).length

def stopAll (c : Cluster) : Cluster :=
  let c := c.sync
  let c := { c with
    feed := c.feed.stop
    backend := none
    controller := c.controller.map fun k => { k with pool := k.pool.shutDown } }
  drainPool (c.slowPasses + 1) c

end Cluster

end Timetable
