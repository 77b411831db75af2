import Timetable.Manifest.Reader
import Timetable.Manifest.Writer

/-!
# The registry of kinds

A registry knows some of the kinds. It decodes manifests of these kinds and no others, sets defaults and
encodes.
-/

namespace Timetable

/-- The kinds that are known, in their order. -/
structure Registry where
  kinds : List Kind
  deriving DecidableEq

namespace Registry

def empty : Registry := ⟨[]⟩

def standard : Registry := ⟨Kind.all⟩

def knows (r : Registry) (kind : Kind) : Bool :=
  r.kinds.contains kind

def register (r : Registry) (kind : Kind) : Except ObjectError Registry :=
  if r.knows kind then .error (.duplicateKind kind)
  else .ok ⟨Kind.all.filter fun k => k == kind || r.knows k⟩

def describe (r : Registry) : String :=
  "Scheme \x7b kinds: [" ++ ", ".intercalate (r.kinds.map Kind.name) ++ "] \x7d"

def require (r : Registry) (kind : Kind) : Except ObjectError Unit :=
  if r.knows kind then .ok () else .error (.unknownKind kind.name)

/-- Sets what a manifest of the kind may leave open. -/
def applyDefaults : Object → Object
  | .schedule s => .schedule s.withDefaults
  | .workItem w => .workItem w

def setDefaults (r : Registry) (o : Object) : Except ObjectError Object := do
  r.require o.kind
  .ok (applyDefaults o)

def encode (r : Registry) (o : Object) : Except ObjectError Json := do
  r.require o.kind
  .ok (Manifest.write o)

/-- The manifest without the members that name its kind and format. -/
def withoutType : Json → Json
  | .obj members => .obj (members.filter fun m => m.1 != "kind" && m.1 != "apiVersion")
  | j => j

/-- Reads an object of a kind; schedules are also validated. -/
def readKind (stamp : Stamp) (kind : Kind) (manifest : Json) : Except ObjectError Object :=
  let unreadable (e : ReadError) : ObjectError := .invalidManifest kind (.unreadable e)
  match kind with
  | .schedule => do
    let s ← (Manifest.readSchedule stamp (withoutType manifest)).mapError unreadable
    s.validate
    .ok (.schedule s)
  | .workItem => do
    let w ← (Manifest.readWorkItem stamp (withoutType manifest)).mapError unreadable
    .ok (.workItem w)

/-- The kind that a manifest names. -/
def kindOf (manifest : Json) : Except ObjectError Kind :=
  match manifest.get? "kind" with
  | some (.str name) => Kind.parse name
  | _ => .error .missingKind

/-- Decodes a manifest of a known kind, checks its key and sets defaults. -/
def decode (r : Registry) (stamp : Stamp) (manifest : Json) : Except ObjectError Object := do
  let kind ← kindOf manifest
  r.require kind
  let o ← readKind stamp kind manifest
  let _ ← (Key.of? o.key.space o.key.name).mapError .invalidIdentity
  .ok (applyDefaults o)

end Registry

end Timetable
