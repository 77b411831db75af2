import Timetable.Object.Basic

/-!
# The store

The store holds schedules and work items by key and gives every change the next version. A write that
carries a version succeeds only if the stored object still has it. The last changes are kept so that
watches can resume.
-/

namespace Timetable

inductive StoreError
  | notFound (kind : String) (key : Key)
  | alreadyExists (kind : String) (key : Key)
  | conflict (kind : String) (key : Key) (expected actual : Nat)
  | unavailable (reason : String)
  | invalid (reason : String)
  deriving DecidableEq

def StoreError.message : StoreError → String
  | .notFound kind key => s!"{kind} {key} not found"
  | .alreadyExists kind key => s!"{kind} {key} already exists"
  | .conflict kind key expected actual =>
    s!"conflict on {kind} {key}: expected version {expected}, found {actual}"
  | .unavailable reason => s!"store unavailable: {reason}"
  | .invalid reason => s!"invalid object: {reason}"

/-- What happens to the children of a deleted schedule: they are deleted too, or lose their reference to
it. -/
inductive Propagation
  | background
  | orphan
  deriving DecidableEq

namespace Object

def withVersion (v : Nat) : Object → Object
  | schedule s => schedule { s with metadata := { s.metadata with version := v } }
  | workItem w => workItem { w with metadata := { w.metadata with version := v } }

end Object

/-- The objects of a store at one version. -/
structure Listing where
  schedules : KeyMap Schedule
  workItems : KeyMap WorkItem
  deriving DecidableEq

namespace Listing

def empty : Listing := ⟨∅, ∅⟩

def get? (l : Listing) : Kind → Key → Option Object
  | .schedule, key => l.schedules[key]?.map .schedule
  | .workItem, key => l.workItems[key]?.map .workItem

def put (l : Listing) : Object → Listing
  | .schedule s => { l with schedules := l.schedules.insert s.metadata.key s }
  | .workItem w => { l with workItems := l.workItems.insert w.metadata.key w }

def erase (l : Listing) : Kind → Key → Listing
  | .schedule, key => { l with schedules := l.schedules.erase key }
  | .workItem, key => { l with workItems := l.workItems.erase key }

def apply (l : Listing) (c : Change) : Listing :=
  match c.type with
  | .added | .modified => l.put c.object
  | .deleted => l.erase c.object.kind c.object.key

def items (l : Listing) : List WorkItem :=
  l.workItems.toList.map (·.2)

/-- All objects, schedules before work items, each in key order. -/
def toList (l : Listing) : List Object :=
  l.schedules.toList.map (fun e => .schedule e.2) ++ l.items.map .workItem

end Listing

/-- Errors that writes are made to fail with: the next creation of a work item, the next status update,
and every deletion of a work item. -/
structure Faults where
  nextCreate : Option StoreError
  nextStatusUpdate : Option StoreError
  deletes : Option StoreError
  deriving DecidableEq

/-- How often work items were created or deleted and statuses updated, failed calls included. -/
structure CallCounts where
  creates : Nat
  deletes : Nat
  statusUpdates : Nat
  deriving DecidableEq

structure Store where
  objects : Listing
  version : Nat
  /-- The last changes, oldest first. -/
  history : List Change
  faults : Faults
  calls : CallCounts
  deriving DecidableEq

namespace Store

def empty : Store := ⟨.empty, 0, [], ⟨none, none, none⟩, ⟨0, 0, 0⟩⟩

def historyLimit : Nat := 1024

/-- Adds a change to the history, which drops its oldest ones. -/
def remember (history : List Change) (c : Change) : List Change :=
  (history ++ [c]).drop (history.length + 1 - historyLimit)

/-- Makes a change: the object gets the next version. -/
def commit (s : Store) (type : ChangeType) (o : Object) : Store :=
  let c : Change := ⟨type, o.withVersion (s.version + 1)⟩
  { s with
    objects := s.objects.apply c
    version := s.version + 1
    history := remember s.history c }

/-! ## Reading -/

def schedule? (s : Store) (key : Key) : Except StoreError Schedule :=
  match s.objects.schedules[key]? with
  | some schedule => .ok schedule
  | none => .error (.notFound Kind.schedule.name key)

/-! ## Writing

A write gives its result with the store after it; a write that fails leaves the objects, the version and
the history as they are. -/

/-- A new object with the stamp given to it and the next version. -/
def stamped (o : Object) (stamp : Stamp) (version : Nat) : Object :=
  let renew (m : Meta) : Meta := { m with uid := stamp.uid, created := stamp.time, version }
  match o with
  | .schedule x => .schedule { x with metadata := renew x.metadata }
  | .workItem x => .workItem { x with metadata := renew x.metadata }

/-- Stores a new object under a valid key that is not taken. -/
def insertNew (s : Store) (stamp : Stamp) (o : Object) : Except StoreError Object × Store :=
  match Key.of? o.key.space o.key.name with
  | .error e => (.error (.invalid e.message), s)
  | .ok key =>
    if (s.objects.get? o.kind key).isSome then
      (.error (.alreadyExists o.kind.name key), s)
    else
      let o := stamped o stamp (s.version + 1)
      (.ok o, s.commit .added o)

def createSchedule (s : Store) (stamp : Stamp) (x : Schedule) : Except StoreError Schedule × Store :=
  match x.validateName with
  | .error e => (.error (.invalid e.message), s)
  | .ok () =>
    match s.insertNew stamp (.schedule x) with
    | (.ok (.schedule y), s) => (.ok y, s)
    | (.ok (.workItem _), s) => (.error (.invalid "expected CronSchedule, found WorkItem"), s)
    | (.error e, s) => (.error e, s)

def createWorkItem (s : Store) (stamp : Stamp) (w : WorkItem) : Except StoreError WorkItem × Store :=
  let s := { s with calls := { s.calls with creates := s.calls.creates + 1 } }
  match s.faults.nextCreate with
  | some e => (.error e, { s with faults := { s.faults with nextCreate := none } })
  | none =>
    match s.insertNew stamp (.workItem w) with
    | (.ok (.workItem v), s) => (.ok v, s)
    | (.ok (.schedule _), s) => (.error (.invalid "expected WorkItem, found CronSchedule"), s)
    | (.error e, s) => (.error e, s)

/-- Replaces the stored schedule of a key by an edit of it, if it still has the expected version. -/
def editSchedule (s : Store) (key : Key) (expected : Nat) (edit : Schedule → Schedule) :
    Except StoreError Schedule × Store :=
  match s.objects.schedules[key]? with
  | none => (.error (.notFound Kind.schedule.name key), s)
  | some x =>
    if x.metadata.version ≠ expected then
      (.error (.conflict Kind.schedule.name key expected x.metadata.version), s)
    else
      let y := edit x
      let y := { y with metadata := { y.metadata with version := s.version + 1 } }
      (.ok y, s.commit .modified (.schedule y))

/-- Replaces the stored work item of a key by an edit of it, if it still has the expected version. -/
def editWorkItem (s : Store) (key : Key) (expected : Nat) (edit : WorkItem → WorkItem) :
    Except StoreError WorkItem × Store :=
  match s.objects.workItems[key]? with
  | none => (.error (.notFound Kind.workItem.name key), s)
  | some w =>
    if w.metadata.version ≠ expected then
      (.error (.conflict Kind.workItem.name key expected w.metadata.version), s)
    else
      let v := edit w
      let v := { v with metadata := { v.metadata with version := s.version + 1 } }
      (.ok v, s.commit .modified (.workItem v))

/-- Replaces labels, annotations and spec; the status stays. -/
def updateSchedule (s : Store) (x : Schedule) : Except StoreError Schedule × Store :=
  s.editSchedule x.metadata.key x.metadata.version fun current =>
    { current with
      metadata := { current.metadata with
        labels := x.metadata.labels, annotations := x.metadata.annotations }
      spec := x.spec }

/-- Counts a status update and takes the fault set for it, if any. -/
def takeStatusFault (s : Store) : Option StoreError × Store :=
  (s.faults.nextStatusUpdate,
    { s with
      calls := { s.calls with statusUpdates := s.calls.statusUpdates + 1 }
      faults := { s.faults with nextStatusUpdate := none } })

def updateScheduleStatus (s : Store) (x : Schedule) : Except StoreError Schedule × Store :=
  match s.takeStatusFault with
  | (some e, s) => (.error e, s)
  | (none, s) =>
    s.editSchedule x.metadata.key x.metadata.version fun current => { current with status := x.status }

def updateWorkItemStatus (s : Store) (w : WorkItem) : Except StoreError WorkItem × Store :=
  match s.takeStatusFault with
  | (some e, s) => (.error e, s)
  | (none, s) =>
    s.editWorkItem w.metadata.key w.metadata.version fun current => { current with status := w.status }

/-- Takes out the work item of a key. -/
def removeWorkItem (s : Store) (key : Key) : Except StoreError Unit × Store :=
  match s.objects.workItems[key]? with
  | none => (.error (.notFound Kind.workItem.name key), s)
  | some w => (.ok (), s.commit .deleted (.workItem w))

def deleteWorkItem (s : Store) (key : Key) : Except StoreError Unit × Store :=
  let s := { s with calls := { s.calls with deletes := s.calls.deletes + 1 } }
  match s.faults.deletes with
  | some e => (.error e, s)
  | none => s.removeWorkItem key

/-- Deletes a child of a deleted schedule, or frees it from the schedule if it still has the expected
version. -/
def dismiss (propagation : Propagation) (owner : Meta) (s : Store) (key : Key) (expected : Nat) :
    Except StoreError Unit × Store :=
  match propagation with
  | .background => s.removeWorkItem key
  | .orphan =>
    let (r, s) := s.editWorkItem key expected fun current =>
      { current with metadata := { current.metadata with
        owners := current.metadata.owners.filter fun r => r.uid != owner.uid } }
    (r.map fun _ => (), s)

/-- Dismisses children in order, each with the version it had before; the first failure ends it. -/
def dismissAll (propagation : Propagation) (owner : Meta) :
    Store → List (Key × Nat) → Except StoreError Unit × Store
  | s, [] => (.ok (), s)
  | s, (key, expected) :: rest =>
    match s.dismiss propagation owner key expected with
    | (.ok (), s) => dismissAll propagation owner s rest
    | (.error e, s) => (.error e, s)

/-- Deletes a schedule and then, in key order, dismisses the work items that it controls. -/
def deleteSchedule (s : Store) (key : Key) (propagation : Propagation) :
    Except StoreError Unit × Store :=
  match s.objects.schedules[key]? with
  | none => (.error (.notFound Kind.schedule.name key), s)
  | some x =>
    let s := s.commit .deleted (.schedule x)
    let children := s.objects.items.filter fun w => w.metadata.isControlledBy x.metadata
    s.dismissAll propagation x.metadata (children.map fun w => (w.metadata.key, w.metadata.version))

end Store

end Timetable
