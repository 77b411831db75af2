import Std.Data.ExtTreeSet
import Timetable.Store.Basic

/-!
# Replicas of a store

A replica holds the objects of a store as they were at some version, with an index from schedules to the
work items that name them as controllers. It takes in listings and changes and tells what became different.
-/

namespace Timetable

/-- Finite sets of keys, in key order. -/
abbrev KeySet := Std.ExtTreeSet Key

structure Replica where
  objects : Listing
  /-- The schedule that each indexed work item names. -/
  owners : KeyMap Key
  /-- The work items that name each schedule; no set is empty. -/
  children : KeyMap KeySet
  /-- The highest version taken in. -/
  lastSeen : Nat
  deriving DecidableEq

/-- What became different. An update also redelivers an object that stayed the same. A deletion that was
inferred from a listing gives the last state known. The owner is the schedule that a work item is or was
indexed under. -/
inductive Event
  | added (object : Object) (owner : Option Key)
  | updated (old new : Object) (owner : Option Key)
  | deleted (last : Object) (inferred : Bool) (owner : Option Key)
  deriving DecidableEq

namespace Event

def object : Event → Object
  | added o _ => o
  | updated _ o _ => o
  | deleted o _ _ => o

def owner : Event → Option Key
  | added _ owner | updated _ _ owner | deleted _ _ owner => owner

/-- The schedule that an event concerns. -/
def schedule? (e : Event) : Option Key :=
  match e.object with
  | .schedule s => some s.metadata.key
  | .workItem _ => e.owner

end Event

/-- The schedule that a work item names as its controller. -/
def WorkItem.ownerKey (w : WorkItem) : Option Key :=
  (w.metadata.controller?.filter (·.kind == Kind.schedule.name)).map fun r =>
    ⟨w.metadata.space, r.name⟩

namespace Replica

def empty : Replica := ⟨.empty, ∅, ∅, 0⟩

/-! ## Reading -/

def get? (r : Replica) (kind : Kind) (key : Key) : Option Object :=
  r.objects.get? kind key

def childKeys (r : Replica) (owner : Key) : List Key :=
  match r.children[owner]? with
  | none => []
  | some keys => keys.toList

/-- The work items that name a schedule, in key order. -/
def childrenOf (r : Replica) (owner : Key) : List WorkItem :=
  (r.childKeys owner).filterMap fun key => r.objects.workItems[key]?

/-! ## The index -/

def unindex (r : Replica) (child : Key) : Replica :=
  match r.owners[child]? with
  | none => r
  | some owner =>
    let left := (r.children[owner]?.getD ∅).erase child
    { r with
      owners := r.owners.erase child
      children :=
        if left.isEmpty then r.children.erase owner else r.children.insert owner left }

def index (r : Replica) (child owner : Key) : Replica :=
  { r with
    owners := r.owners.insert child owner
    children := r.children.insert owner ((r.children[owner]?.getD ∅).insert child) }

/-- Stores an object; the second part is the schedule that it is indexed under. -/
def upsert (r : Replica) (o : Object) : Replica × Option Key :=
  match o with
  | .schedule _ => ({ r with objects := r.objects.put o }, none)
  | .workItem w =>
    let r := r.unindex o.key
    let r := match w.ownerKey with
      | none => r
      | some owner => r.index o.key owner
    ({ r with objects := r.objects.put o }, w.ownerKey)

/-- Removes the object of a key; the second part is the schedule that it was indexed under. -/
def remove (r : Replica) (kind : Kind) (key : Key) : Replica × Option Key :=
  match kind with
  | .schedule => ({ r with objects := r.objects.erase .schedule key }, none)
  | .workItem =>
    let owner := r.owners[key]?
    let r := r.unindex key
    ({ r with objects := r.objects.erase .workItem key }, owner)

/-! ## Taking in news -/

/-- Takes in one object of a listing; one whose version is known already is passed over. -/
def learn (r : Replica) (o : Object) : Replica × List Event :=
  match r.get? o.kind o.key with
  | none => let (r, owner) := r.upsert o; (r, [.added o owner])
  | some old =>
    if old.version = o.version then (r, [])
    else let (r, owner) := r.upsert o; (r, [.updated old o owner])

def learnAll (r : Replica) : List Object → Replica × List Event
  | [] => (r, [])
  | o :: rest =>
    let (r, events) := r.learn o
    let (r, more) := r.learnAll rest
    (r, events ++ more)

def dropAll (r : Replica) : List Object → Replica × List Event
  | [] => (r, [])
  | o :: rest =>
    let (r, owner) := r.remove o.kind o.key
    let (r, more) := r.dropAll rest
    (r, .deleted o true owner :: more)

/-- Becomes equal to a listing and tells the difference. -/
def replace (r : Replica) (objects : List Object) (version : Nat) : Replica × List Event :=
  let (r, news) := r.learnAll objects
  let listed (o : Object) : Bool := objects.any fun p => p.kind == o.kind && p.key == o.key
  let (r, losses) := r.dropAll (r.objects.toList.filter fun o => !listed o)
  ({ r with lastSeen := max r.lastSeen version }, news ++ losses)

/-- Takes in one change. News no newer than the object known are passed over. -/
def apply (r : Replica) (c : Change) : Replica × List Event :=
  let current := r.get? c.object.kind c.object.key
  let seen (r : Replica) : Replica := { r with lastSeen := max r.lastSeen c.version }
  if current.any (c.version ≤ ·.version) then (seen r, [])
  else
    match c.type with
    | .deleted =>
      let (r, indexed) := r.remove c.object.kind c.object.key
      let owner := indexed.orElse fun _ =>
        match c.object with
        | .schedule _ => none
        | .workItem w => w.ownerKey
      (seen r, [.deleted c.object false owner])
    | .added | .modified =>
      let (r, owner) := r.upsert c.object
      (seen r, [match current with
        | none => .added c.object owner
        | some old => .updated old c.object owner])

def applyAll (r : Replica) : List Change → Replica × List Event
  | [] => (r, [])
  | c :: rest =>
    let (r, events) := r.apply c
    let (r, more) := r.applyAll rest
    (r, events ++ more)

def redeliver (r : Replica) : List Event :=
  r.objects.toList.map fun o =>
    .updated o o (match o with | .schedule _ => none | .workItem _ => r.owners[o.key]?)

end Replica

end Timetable
