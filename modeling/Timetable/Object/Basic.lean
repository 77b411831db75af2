import Timetable.Object.WorkItem

/-!
# Objects and changes

An object is a schedule or a work item. A change is what the store reports when it adds, modifies or
deletes one.
-/

namespace Timetable

namespace Kind

instance : Ord Kind := ⟨compareOn fun | .schedule => 0 | .workItem => (1 : Nat)⟩

def all : List Kind := [schedule, workItem]

def parse (s : String) : Except ObjectError Kind :=
  match all.find? (·.name == s) with
  | some kind => .ok kind
  | none => .error (.unknownKind s)

end Kind

inductive Object
  | schedule (s : Schedule)
  | workItem (w : WorkItem)
  deriving DecidableEq

namespace Object

def kind : Object → Kind
  | schedule _ => .schedule
  | workItem _ => .workItem

def metadata : Object → Meta
  | schedule s => s.metadata
  | workItem w => w.metadata

def key (o : Object) : Key := o.metadata.key

def version (o : Object) : Nat := o.metadata.version

end Object

inductive ChangeType
  | added
  | modified
  | deleted
  deriving DecidableEq

/-- A change of one object; a deleted object is given in its last state, with the version of the
deletion. -/
structure Change where
  type : ChangeType
  object : Object
  deriving DecidableEq

def Change.version (c : Change) : Nat := c.object.version

end Timetable
