import Timetable.Object.Basic

/-!
# Reading manifests

A structure is written as an object or as an array of its fields in their order of declaration. Given
members are read in the order of their names and the first bad one is reported; then the missing ones are
looked for in the order of declaration. Unknown members are ignored.
-/

namespace Timetable.Manifest

abbrev Read := Except ReadError

/-- What a value is, for messages. -/
def found : Json → Found
  | .null => .null
  | .bool b => .bool b
  | .int n => .int n
  | .float x => .float x
  | .str s => .str s
  | .arr _ => .sequence
  | .obj _ => .map

/-! ## Plain values -/

def readString : Json → Read String
  | .str s => .ok s
  | j => .error (.invalidType (found j) "a string")

def readBool : Json → Read Bool
  | .bool b => .ok b
  | j => .error (.invalidType (found j) "a boolean")

def readInt (lo hi : Int) (word : String) : Json → Read Int
  | .int n =>
    if lo ≤ n ∧ n ≤ hi then .ok n else .error (.invalidValue (.int n) word)
  | j => .error (.invalidType (found j) word)

def readSigned64 : Json → Read Int :=
  readInt (-Text.maxSigned64 - 1) Text.maxSigned64 "i64"

def readWord32 (j : Json) : Read Nat :=
  (readInt 0 Text.max32 "u32" j).map Int.toNat

def readWord64 (j : Json) : Read Nat :=
  (readInt 0 Text.max64 "u64" j).map Int.toNat

def readUid (j : Json) : Read Uid := do
  (Uid.parse (← readString j)).mapError .badUid

def readTime : Json → Read Instant
  | .str s => (Instant.readLenient s).mapError .badTime
  | j => .error (.invalidType (found j) "an RFC 3339 formatted date and time string")

def readAny (j : Json) : Read Json := .ok j

def readOptional {α : Type} (read : Json → Read α) : Json → Read (Option α)
  | .null => .ok none
  | j => (read j).map some

def readList {α : Type} (read : Json → Read α) : Json → Read (List α)
  | .arr items => items.mapM read
  | j => .error (.invalidType (found j) "a sequence")

def readLabels : Json → Read Labels
  | .obj members => do
    let entries ← members.mapM fun (name, value) => do .ok (name, ← readString value)
    .ok (.ofList entries)
  | j => .error (.invalidType (found j) "a map")

/-- One of several named values: its name, or an object whose only member has that name and is null. -/
def readVariant {α : Type} (known : List α) (name : α → String) (j : Json) : Read α :=
  let pick (s : String) : Read α :=
    match known.find? (name · == s) with
    | some a => .ok a
    | none => .error (.unknownVariant s (known.map name))
  match j with
  | .str s => pick s
  | .obj [(s, value)] => do
    let a ← pick s
    if value = .null then .ok a else .error (.invalidType (found value) "unit")
  | .obj _ => .error (.invalidValue .map "map with a single key")
  | j => .error (.invalidType (found j) "string or map")

/-! ## Structures -/

/-- The member of a name, if it is given. -/
def given {α : Type} (members : List (String × Json)) (name : String) (read : Json → Read α) :
    Read (Option α) :=
  match Json.member? name members with
  | none => .ok none
  | some j => (read j).map some

def required {α : Type} (name : String) : Option α → Read α
  | none => .error (.missingField name)
  | some a => .ok a

/-- The fields of a structure given as an array. -/
structure Items where
  type : String
  size : Nat
  values : List Json

namespace Items

/-- The field at a position, if the array reaches so far. -/
def given {α : Type} (items : Items) (i : Nat) (read : Json → Read α) : Read (Option α) :=
  match items.values[i]? with
  | none => .ok none
  | some j => (read j).map some

/-- The field at a position, which has to be there. -/
def required {α : Type} (items : Items) (i : Nat) (read : Json → Read α) : Read α := do
  match ← items.given i read with
  | none => .error (.invalidLength i s!"struct {items.type} with {items.size} elements")
  | some a => .ok a

end Items

/-- A structure of a type with `size` fields, from its members or its items. -/
def readStruct {α : Type} (type : String) (size : Nat) (ofMembers : List (String × Json) → Read α)
    (ofItems : Items → Read α) : Json → Read α
  | .obj members => ofMembers members
  | .arr values => do
    let a ← ofItems ⟨type, size, values⟩
    if size < values.length then .error (.invalidLength values.length "fewer elements in array")
    else .ok a
  | j => .error (.invalidType (found j) s!"struct {type}")

def readOwner : Json → Read OwnerReference :=
  readStruct "OwnerReference" 4
    (fun ms => do
      let controller ← given ms "controller" readBool
      let kind ← given ms "kind" readString
      let name ← given ms "name" readString
      let uid ← given ms "uid" readUid
      .ok ⟨← required "kind" kind, ← required "name" name, ← required "uid" uid,
        controller.getD false⟩)
    (fun xs => do
      let kind ← xs.required 0 readString
      let name ← xs.required 1 readString
      let uid ← xs.required 2 readUid
      let controller ← xs.given 3 readBool
      .ok ⟨kind, name, uid, controller.getD false⟩)

def readReference : Json → Read ObjectReference :=
  readStruct "ObjectReference" 4
    (fun ms => do
      let kind ← given ms "kind" readString
      let name ← given ms "name" readString
      let space ← given ms "namespace" readString
      let uid ← given ms "uid" readUid
      .ok ⟨← required "kind" kind, ← required "namespace" space, ← required "name" name,
        ← required "uid" uid⟩)
    (fun xs => do
      let kind ← xs.required 0 readString
      let space ← xs.required 1 readString
      let name ← xs.required 2 readString
      let uid ← xs.required 3 readUid
      .ok ⟨kind, space, name, uid⟩)

/-- Metadata; the stamp fills in a missing UID and creation time. -/
def readMeta (stamp : Stamp) : Json → Read Meta :=
  readStruct "ObjectMeta" 8
    (fun ms => do
      let annotations ← given ms "annotations" readLabels
      let created ← given ms "creationTimestamp" readTime
      let labels ← given ms "labels" readLabels
      let name ← given ms "name" readString
      let space ← given ms "namespace" readString
      let owners ← given ms "ownerReferences" (readList readOwner)
      let version ← given ms "resourceVersion" readWord64
      let uid ← given ms "uid" readUid
      .ok {
        space := ← required "namespace" space
        name := ← required "name" name
        uid := uid.getD stamp.uid
        version := version.getD 0
        created := created.getD stamp.time
        labels := labels.getD ∅
        annotations := annotations.getD ∅
        owners := owners.getD [] })
    (fun xs => do
      let space ← xs.required 0 readString
      let name ← xs.required 1 readString
      let uid ← xs.given 2 readUid
      let version ← xs.given 3 readWord64
      let created ← xs.given 4 readTime
      let labels ← xs.given 5 readLabels
      let annotations ← xs.given 6 readLabels
      let owners ← xs.given 7 (readList readOwner)
      .ok {
        space, name
        uid := uid.getD stamp.uid
        version := version.getD 0
        created := created.getD stamp.time
        labels := labels.getD ∅
        annotations := annotations.getD ∅
        owners := owners.getD [] })

def readTemplate : Json → Read Template :=
  readStruct "WorkItemTemplate" 3
    (fun ms => do
      let annotations ← given ms "annotations" readLabels
      let labels ← given ms "labels" readLabels
      let spec ← given ms "spec" readAny
      .ok ⟨labels.getD ∅, annotations.getD ∅, spec.getD .null⟩)
    (fun xs => do
      let labels ← xs.given 0 readLabels
      let annotations ← xs.given 1 readLabels
      let spec ← xs.given 2 readAny
      .ok ⟨labels.getD ∅, annotations.getD ∅, spec.getD .null⟩)

def readConcurrency : Json → Read Concurrency :=
  readVariant [.allow, .forbid, .replace] Concurrency.name

def readScheduleSpec : Json → Read ScheduleSpec :=
  readStruct "CronScheduleSpec" 7
    (fun ms => do
      let concurrency ← given ms "concurrencyPolicy" readConcurrency
      let failedLimit ← given ms "failedHistoryLimit" (readOptional readWord32)
      let schedule ← given ms "schedule" readString
      let deadline ← given ms "startingDeadlineSeconds" (readOptional readSigned64)
      let successfulLimit ← given ms "successfulHistoryLimit" (readOptional readWord32)
      let suspend ← given ms "suspend" readBool
      let template ← given ms "template" readTemplate
      .ok {
        schedule := ← required "schedule" schedule
        concurrency := concurrency.getD .allow
        suspend := suspend.getD false
        startingDeadline := deadline.getD none
        successfulLimit := successfulLimit.getD none
        failedLimit := failedLimit.getD none
        template := ← required "template" template })
    (fun xs => do
      let schedule ← xs.required 0 readString
      let concurrency ← xs.given 1 readConcurrency
      let suspend ← xs.given 2 readBool
      let deadline ← xs.given 3 (readOptional readSigned64)
      let successfulLimit ← xs.given 4 (readOptional readWord32)
      let failedLimit ← xs.given 5 (readOptional readWord32)
      let template ← xs.required 6 readTemplate
      .ok {
        schedule
        concurrency := concurrency.getD .allow
        suspend := suspend.getD false
        startingDeadline := deadline.getD none
        successfulLimit := successfulLimit.getD none
        failedLimit := failedLimit.getD none
        template })

def readScheduleStatus : Json → Read ScheduleStatus :=
  readStruct "CronScheduleStatus" 2
    (fun ms => do
      let active ← given ms "active" (readList readReference)
      let last ← given ms "lastScheduleTime" (readOptional readTime)
      .ok ⟨last.getD none, active.getD []⟩)
    (fun xs => do
      let last ← xs.given 0 (readOptional readTime)
      let active ← xs.given 1 (readList readReference)
      .ok ⟨last.getD none, active.getD []⟩)

def readSchedule (stamp : Stamp) : Json → Read Schedule :=
  readStruct "CronSchedule" 3
    (fun ms => do
      let metadata ← given ms "metadata" (readMeta stamp)
      let spec ← given ms "spec" readScheduleSpec
      let status ← given ms "status" readScheduleStatus
      .ok ⟨← required "metadata" metadata, ← required "spec" spec, status.getD .initial⟩)
    (fun xs => do
      let metadata ← xs.required 0 (readMeta stamp)
      let spec ← xs.required 1 readScheduleSpec
      let status ← xs.given 2 readScheduleStatus
      .ok ⟨metadata, spec, status.getD .initial⟩)

def readPhase : Json → Read Phase :=
  readVariant [.pending, .running, .succeeded, .failed] Phase.name

def readWorkItemStatus : Json → Read WorkItemStatus :=
  readStruct "WorkItemStatus" 3
    (fun ms => do
      let completed ← given ms "completionTime" (readOptional readTime)
      let phase ← given ms "phase" readPhase
      let started ← given ms "startTime" (readOptional readTime)
      .ok ⟨phase.getD .pending, started.getD none, completed.getD none⟩)
    (fun xs => do
      let phase ← xs.given 0 readPhase
      let started ← xs.given 1 (readOptional readTime)
      let completed ← xs.given 2 (readOptional readTime)
      .ok ⟨phase.getD .pending, started.getD none, completed.getD none⟩)

def readWorkItem (stamp : Stamp) : Json → Read WorkItem :=
  readStruct "WorkItem" 3
    (fun ms => do
      let metadata ← given ms "metadata" (readMeta stamp)
      let spec ← given ms "spec" readAny
      let status ← given ms "status" readWorkItemStatus
      .ok ⟨← required "metadata" metadata, spec.getD .null, status.getD .initial⟩)
    (fun xs => do
      let metadata ← xs.required 0 (readMeta stamp)
      let spec ← xs.given 1 readAny
      let status ← xs.given 2 readWorkItemStatus
      .ok ⟨metadata, spec.getD .null, status.getD .initial⟩)

end Timetable.Manifest
