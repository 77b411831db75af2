import Timetable.Cluster.Basic
import Timetable.Store.Seed

/-!
# What operators do to a cluster

Operators set the clock, write to the store, and run single passes and rounds of the backend by hand.
-/

namespace Timetable.Cluster

/-! ## The clock -/

def now (c : Cluster) : Instant := c.site.clock

/-- Sets the clock, unless it follows the virtual time. -/
def setClock (c : Cluster) (t : Instant) : Cluster :=
  if c.params.clockStart.isSome then c else { c with site := { c.site with clock := t } }

def advanceClock (c : Cluster) (span : Int) : Cluster :=
  c.setClock (c.now.shift span)

/-- Lets everything run for a span. -/
def sleep (c : Cluster) (span : Nat) : Cluster :=
  (c.sync.pass span).sync

/-- Waits for the first listing of the feed; after a span without it the answer is no. -/
def waitForSync (c : Cluster) (span : Nat) : Bool × Cluster :=
  if c.feed.synced then (true, c)
  else
    let c := c.pass span
    (c.feed.synced, c)

/-! ## Writes -/

def withStore (c : Cluster) (store : Store) : Cluster :=
  { c with site := { c.site with store } }

def write {α : Type} (c : Cluster) (f : Store → α × Store) : α × Cluster :=
  let (a, store) := f c.store
  (a, c.withStore store)

/-- The stamp that the `n`-th object from now gets. -/
def stamp (c : Cluster) (n : Nat) : Stamp :=
  ⟨c.params.uids (c.minted + n), c.now⟩

/-- Makes a write that creates an object. Only a successful one uses up a UID. -/
def create {α : Type} (c : Cluster) (f : Stamp → Store → Except StoreError α × Store) :
    Except StoreError α × Cluster :=
  let (r, c') := c.write (f (c.stamp 0))
  (r, if r.isOk then { c' with minted := c.minted + 1 } else c')

def setFaults (c : Cluster) (f : Faults → Faults) : Cluster :=
  c.withStore { c.store with faults := f c.store.faults }

/-- Creates objects, schedules first, until one fails. Every creation makes one version. -/
def seed (c : Cluster) (objects : List Object) : Except SeedError Nat × Cluster :=
  let (r, c') := c.write fun s => s.seed c.stamp objects
  (r, { c' with minted := c.minted + (c'.store.version - c.store.version) })

inductive LaunchError
  | store (e : StoreError)
  | template (e : ObjectError)
  deriving DecidableEq

/-- Launches the work item of a fire by hand; `edit` has the last word on its status. -/
def launch (c : Cluster) (key : Key) (fire : Instant) (edit : WorkItemStatus → WorkItemStatus) :
    Except LaunchError WorkItem × Cluster :=
  match c.store.schedule? key with
  | .error e => (.error (.store e), c)
  | .ok s =>
    match WorkItem.ofTemplate s fire with
    | .error e => (.error (.template e), c)
    | .ok w =>
      let (r, c) := c.create fun stamp s => s.createWorkItem stamp { w with status := edit w.status }
      (r.mapError .store, c)

def editStatus (c : Cluster) (key : Key) (edit : WorkItemStatus → WorkItemStatus) :
    Except StoreError WorkItem × Cluster :=
  match c.store.objects.workItems[key]? with
  | none => (.error (.notFound Kind.workItem.name key), c)
  | some w => c.write fun s => s.updateWorkItemStatus { w with status := edit w.status }

/-- Writes a schedule back as it is, again and again; each write makes a new version. -/
def resubmit (key : Key) : (times : Nat) → Cluster → Except StoreError Unit × Cluster
  | 0, c => (.ok (), c)
  | times + 1, c =>
    match c.store.schedule? key with
    | .error e => (.error e, c)
    | .ok s =>
      match c.write (·.updateSchedule s) with
      | (.error e, c) => (.error e, c)
      | (.ok _, c) => resubmit key times c

/-! ## Work by hand -/

/-- Runs a pass on the replica as it is. -/
def reconcile (c : Cluster) (key : Key) : Outcome × Cluster :=
  c.runClient (Pass.run c.params.cap key (c.feed.replica.view? key))

def moveItemsNow (c : Cluster) : Except StoreError Nat × Cluster :=
  c.runClient (Executor.round c.params.runtime)

/-! ## What was observed -/

/-- Takes the events of the replica since they were taken last, with their times. -/
def takeEvents (c : Cluster) : List (Nat × Event) × Cluster :=
  (c.events.reverse, { c with events := [] })

def clearRecords (c : Cluster) : Cluster :=
  { c with site := { c.site with records := [] } }

/-- The keys that were played since the controller was started, with the times since then. -/
def calls (c : Cluster) : List (Key × Nat) :=
  (c.controller.map (·.calls.reverse)).getD []

end Timetable.Cluster
