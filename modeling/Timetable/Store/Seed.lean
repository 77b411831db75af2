import Timetable.Store.Basic

/-!
# Seeding a store

Objects are created in a store one after the other, schedules before work items. The first failure ends
it, and what was created before stays.
-/

namespace Timetable

/-- An object that could not be created. -/
structure SeedError where
  kind : Kind
  key : Key
  cause : StoreError
  deriving DecidableEq

def SeedError.context (e : SeedError) : String :=
  match e.kind with
  | .schedule => s!"failed to seed schedule {e.key}"
  | .workItem => s!"failed to seed work item {e.key}"

namespace Store

def create (s : Store) (stamp : Stamp) : Object → Except StoreError Unit × Store
  | .schedule x => let (r, s) := s.createSchedule stamp x; (r.map fun _ => (), s)
  | .workItem w => let (r, s) := s.createWorkItem stamp w; (r.map fun _ => (), s)

/-- Creates objects in order; the `n`-th one gets the stamp `stamps n`. -/
def createAll (stamps : Nat → Stamp) : (created : Nat) → Store → List Object →
    Except SeedError Nat × Store
  | created, s, [] => (.ok created, s)
  | created, s, o :: rest =>
    match s.create (stamps created) o with
    | (.ok (), s) => createAll stamps (created + 1) s rest
    | (.error e, s) => (.error ⟨o.kind, o.key, e⟩, s)

def seedOrder (objects : List Object) : List Object :=
  objects.filter (·.kind == .schedule) ++ objects.filter (·.kind == .workItem)

/-- Creates the objects and counts them. -/
def seed (s : Store) (stamps : Nat → Stamp) (objects : List Object) : Except SeedError Nat × Store :=
  createAll stamps 0 s (seedOrder objects)

end Store

end Timetable
