import Timetable.Calendar.Instant
import Timetable.Identity.Key
import Timetable.Identity.Uid

/-!
# Object metadata

What every stored object carries: its key, the UID, version and creation time that the store gives it,
labels, annotations, and references to the objects that own it.
-/

namespace Timetable

/-- Labels or annotations. -/
abbrev Labels := Std.ExtTreeMap String String

/-- What makes an object new: its UID and the time of its creation. -/
structure Stamp where
  uid : Uid
  time : Instant
  deriving DecidableEq

/-- The stamp of an object that was not stored yet. -/
def Stamp.blank : Stamp := ⟨.ofNat 0, .ofSecond 0⟩

/-- A reference from a child to an owner. The first one with `controller` set names the object that
manages the child. -/
structure OwnerReference where
  kind : String
  name : String
  uid : Uid
  controller : Bool
  deriving DecidableEq

/-- A reference to an object, as a status records it. -/
structure ObjectReference where
  kind : String
  space : String
  name : String
  uid : Uid
  deriving DecidableEq

namespace ObjectReference

instance : Ord ObjectReference :=
  ⟨compareLex (compareOn kind)
    (compareLex (compareOn space) (compareLex (compareOn name) (compareOn uid)))⟩

instance : Std.TransOrd ObjectReference :=
  inferInstanceAs (Std.TransCmp (compareLex (compareOn kind)
    (compareLex (compareOn space) (compareLex (compareOn name) (compareOn uid)))))

end ObjectReference

structure Meta where
  space : String
  name : String
  uid : Uid
  version : Nat
  created : Instant
  labels : Labels
  annotations : Labels
  owners : List OwnerReference
  deriving DecidableEq

namespace Meta

def new (space name : String) (stamp : Stamp) : Meta :=
  { space, name, uid := stamp.uid, version := 0, created := stamp.time,
    labels := ∅, annotations := ∅, owners := [] }

def key (m : Meta) : Key := ⟨m.space, m.name⟩

def controller? (m : Meta) : Option OwnerReference :=
  m.owners.find? (·.controller)

/-- Whether `owner` manages the object. The UID decides, so a namesake created later adopts nothing. -/
def isControlledBy (m owner : Meta) : Bool :=
  m.controller?.any fun r => r.uid == owner.uid && m.space == owner.space

end Meta

end Timetable
