import Timetable.Calendar.Rfc3339
import Timetable.Identity.Name
import Timetable.Json.Binary64
import Timetable.Text.Printable

/-!
# Faults of objects and manifests

`ReadError` says why a manifest does not have the form of its kind, `ObjectError` why an object is
refused.
-/

namespace Timetable

/-- The two kinds of objects, in the order in which they are listed. -/
inductive Kind
  | schedule
  | workItem
  deriving DecidableEq

def Kind.name : Kind → String
  | .schedule => "CronSchedule"
  | .workItem => "WorkItem"

/-- What was found in place of what was expected. -/
inductive Found
  | null
  | bool (b : Bool)
  | int (n : Int)
  | float (x : Binary64)
  | str (s : String)
  | sequence
  | map
  deriving DecidableEq

/-- A character inside a quoted text of a message. -/
def quotedChar (c : Char) : List Char :=
  if c = '"' then ['\\', '"']
  else if c = '\\' then ['\\', '\\']
  else if c = '\n' then ['\\', 'n']
  else if c = '\r' then ['\\', 'r']
  else if c = '\t' then ['\\', 't']
  else if c.toNat = 0 then ['\\', '0']
  else if Text.isPrintable c then [c]
  else ['\\', 'u', '\x7b'] ++ Nat.toDigits 16 c.toNat ++ ['\x7d']

def quoted (s : String) : String :=
  "\"" ++ String.ofList (s.toList.flatMap quotedChar) ++ "\""

def Found.describe : Found → String
  | .null => "null"
  | .bool b => s!"boolean `{b}`"
  | .int n => s!"integer `{n}`"
  | .float x => s!"floating point `{x.render}`"
  | .str s => s!"string {quoted s}"
  | .sequence => "sequence"
  | .map => "map"

inductive ReadError
  | invalidType (found : Found) (expected : String)
  | invalidValue (found : Found) (expected : String)
  | unknownVariant (found : String) (known : List String)
  | missingField (name : String)
  | invalidLength (found : Nat) (expected : String)
  | badUid (cause : IdentityError)
  | badTime (cause : TimeError)
  deriving DecidableEq

def ReadError.message : ReadError → String
  | .invalidType found expected => s!"invalid type: {found.describe}, expected {expected}"
  | .invalidValue found expected => s!"invalid value: {found.describe}, expected {expected}"
  | .unknownVariant found known =>
    let names := ", ".intercalate (known.map fun k => "`" ++ k ++ "`")
    s!"unknown variant `{found}`, expected one of {names}"
  | .missingField name => s!"missing field `{name}`"
  | .invalidLength found expected => s!"invalid length {found}, expected {expected}"
  | .badUid cause => cause.message
  | .badTime cause => cause.message

/-- What makes a manifest of a known kind invalid. -/
inductive ManifestFault
  | unreadable (cause : ReadError)
  | noTemplateSpec
  deriving DecidableEq

def ManifestFault.message : ManifestFault → String
  | .unreadable cause => cause.message
  | .noTemplateSpec => "template.spec is required"

/-- A value that a schedule cannot be run with. -/
inductive FieldFault
  | longName (limit length : Nat)
  | negativeDeadline (seconds : Int)
  | hugeDeadline (seconds : Int)
  deriving DecidableEq

def FieldFault.field : FieldFault → String
  | .longName .. => "metadata.name"
  | .negativeDeadline _ | .hugeDeadline _ => "startingDeadlineSeconds"

def FieldFault.message : FieldFault → String
  | .longName limit length => s!"schedule names are limited to {limit} characters, got {length}"
  | .negativeDeadline seconds => s!"must not be negative, got {seconds}"
  | .hugeDeadline seconds => s!"{seconds} is out of range"

inductive ObjectError
  | unknownKind (kind : String)
  | missingKind
  | duplicateKind (kind : Kind)
  | invalidManifest (kind : Kind) (fault : ManifestFault)
  | invalidField (fault : FieldFault)
  | invalidIdentity (cause : IdentityError)
  | noScheduledTime
  | badScheduledTime (value : String) (cause : TimeError)
  deriving DecidableEq

def ObjectError.message : ObjectError → String
  | .unknownKind kind => s!"unknown kind: {kind}"
  | .missingKind => "manifest is missing the 'kind' field"
  | .duplicateKind kind => s!"kind already registered: {kind.name}"
  | .invalidManifest kind fault => s!"invalid {kind.name} manifest: {fault.message}"
  | .invalidField fault => s!"invalid {fault.field}: {fault.message}"
  | .invalidIdentity cause => s!"invalid object identity: {cause.message}"
  | .noScheduledTime => "scheduled time annotation not found"
  | .badScheduledTime value cause =>
    s!"invalid scheduled time annotation '{value}': {cause.message}"

/-- The texts of an error from the outside inward. -/
def ObjectError.chain (e : ObjectError) : List String :=
  match e with
  | .invalidIdentity cause => [e.message, cause.message]
  | _ => [e.message]

end Timetable
