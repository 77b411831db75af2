import Timetable.Manifest.Registry
import Timetable.Proofs.Manifest.Members

/-!
# Decoding what was encoded

What a manifest leaves open, gives in another form or spells in another way is settled when it is decoded. The
object that comes of it is encoded in one form, and decoding that form gives the same object again.
-/

namespace Timetable

/-! ## What can be written -/

structure Meta.Fits (m : Meta) : Prop where
  version : m.version ≤ Text.max64
  created : m.created.Civil

structure ScheduleSpec.Fits (s : ScheduleSpec) : Prop where
  deadline : ∀ n ∈ s.startingDeadline, -Text.maxSigned64 - 1 ≤ n ∧ n ≤ Text.maxSigned64
  successfulLimit : ∀ n ∈ s.successfulLimit, n ≤ Text.max32
  failedLimit : ∀ n ∈ s.failedLimit, n ≤ Text.max32

def ScheduleStatus.Fits (s : ScheduleStatus) : Prop :=
  ∀ t ∈ s.lastScheduled, t.Civil

structure WorkItemStatus.Fits (s : WorkItemStatus) : Prop where
  started : ∀ t ∈ s.started, t.Civil
  completed : ∀ t ∈ s.completed, t.Civil

structure Schedule.Fits (s : Schedule) : Prop where
  metadata : s.metadata.Fits
  spec : s.spec.Fits
  status : s.status.Fits

structure WorkItem.Fits (w : WorkItem) : Prop where
  metadata : w.metadata.Fits
  status : w.status.Fits

/-- Numbers and times are in the range that can be read back, and a schedule is valid. -/
def Object.Fits : Object → Prop
  | .schedule s => s.Fits ∧ s.validate = .ok ()
  | .workItem w => w.Fits

namespace Manifest

/-! ## What is read can be written -/

section
variable {stamp : Stamp} (hclock : stamp.time.Civil)
include hclock

lemma readMeta_gives (j : Json) : Gives Meta.Fits (readMeta stamp j) := by
  refine .struct (fun ms => ?_) (fun xs => ?_) j
  · refine .bind fun _ _ => .bind fun created hcreated => .bind fun _ _ => ?_
    refine .bind fun _ _ => .bind fun _ _ => ?_
    refine .bind fun _ _ => .bind fun version hversion => .bind fun _ _ => ?_
    refine .bind fun _ _ => .bind fun _ _ => ?_
    exact .ok ⟨getD_of_mem (p := (· ≤ Text.max64)) (Gives.member .word64 _ _ _ hversion) (Nat.zero_le _),
      getD_of_mem (Gives.member .time _ _ _ hcreated) hclock⟩
  · refine .bind fun _ _ => .bind fun _ _ => .bind fun _ _ => .bind fun version hversion => ?_
    refine .bind fun created hcreated => .bind fun _ _ => .bind fun _ _ => .bind fun _ _ => ?_
    exact .ok ⟨getD_of_mem (p := (· ≤ Text.max64)) (Gives.item .word64 _ _ _ hversion) (Nat.zero_le _),
      getD_of_mem (Gives.item .time _ _ _ hcreated) hclock⟩

end

lemma readScheduleSpec_gives (j : Json) : Gives ScheduleSpec.Fits (readScheduleSpec j) := by
  have hword := Gives.optional Gives.word32
  have hsigned := Gives.optional (Gives.int (-Text.maxSigned64 - 1) Text.maxSigned64 "i64")
  refine .struct (fun ms => ?_) (fun xs => ?_) j
  · refine .bind fun _ _ => .bind fun failed hfailed => .bind fun _ _ => .bind fun deadline hdeadline => ?_
    refine .bind fun successful hsuccessful => .bind fun _ _ => .bind fun _ _ => .bind fun _ _ => ?_
    refine .bind fun _ _ => .ok ⟨?_, ?_, ?_⟩
    · exact getD_of_mem (Gives.member hsigned _ _ _ hdeadline) (by simp)
    · exact getD_of_mem (Gives.member hword _ _ _ hsuccessful) (by simp)
    · exact getD_of_mem (Gives.member hword _ _ _ hfailed) (by simp)
  · refine .bind fun _ _ => .bind fun _ _ => .bind fun _ _ => .bind fun deadline hdeadline => ?_
    refine .bind fun successful hsuccessful => .bind fun failed hfailed => .bind fun _ _ => ?_
    refine .ok ⟨?_, ?_, ?_⟩
    · exact getD_of_mem (Gives.item hsigned _ _ _ hdeadline) (by simp)
    · exact getD_of_mem (Gives.item hword _ _ _ hsuccessful) (by simp)
    · exact getD_of_mem (Gives.item hword _ _ _ hfailed) (by simp)

lemma readScheduleStatus_gives (j : Json) : Gives ScheduleStatus.Fits (readScheduleStatus j) := by
  have htime := Gives.optional Gives.time
  refine .struct (fun ms => ?_) (fun xs => ?_) j
  · refine .bind fun _ _ => .bind fun last hlast => .ok ?_
    exact getD_of_mem (Gives.member htime _ _ _ hlast) (by simp)
  · refine .bind fun last hlast => .bind fun _ _ => .ok ?_
    exact getD_of_mem (Gives.item htime _ _ _ hlast) (by simp)

lemma readWorkItemStatus_gives (j : Json) : Gives WorkItemStatus.Fits (readWorkItemStatus j) := by
  have htime := Gives.optional Gives.time
  refine .struct (fun ms => ?_) (fun xs => ?_) j
  · refine .bind fun completed hcompleted => .bind fun _ _ => .bind fun started hstarted => .ok ⟨?_, ?_⟩
    · exact getD_of_mem (Gives.member htime _ _ _ hstarted) (by simp)
    · exact getD_of_mem (Gives.member htime _ _ _ hcompleted) (by simp)
  · refine .bind fun _ _ => .bind fun started hstarted => .bind fun completed hcompleted => .ok ⟨?_, ?_⟩
    · exact getD_of_mem (Gives.item htime _ _ _ hstarted) (by simp)
    · exact getD_of_mem (Gives.item htime _ _ _ hcompleted) (by simp)

section
variable {stamp : Stamp} (hclock : stamp.time.Civil)
include hclock

lemma readSchedule_gives (j : Json) : Gives Schedule.Fits (readSchedule stamp j) := by
  have hinitial : ScheduleStatus.initial.Fits := by simp [ScheduleStatus.Fits, ScheduleStatus.initial]
  have hmeta := readMeta_gives hclock
  refine .struct (fun ms => ?_) (fun xs => ?_) j
  · refine .bind fun metadata hmetadata => .bind fun spec hspec => .bind fun status hstatus => ?_
    refine .bind fun m hm => .bind fun s hs => .ok ⟨?_, ?_, ?_⟩
    · exact Gives.required (Gives.member hmeta _ _ _ hmetadata) _ _ hm
    · exact Gives.required (Gives.member readScheduleSpec_gives _ _ _ hspec) _ _ hs
    · exact getD_of_mem (Gives.member readScheduleStatus_gives _ _ _ hstatus) hinitial
  · refine .bind fun m hm => .bind fun s hs => .bind fun status hstatus => .ok ⟨?_, ?_, ?_⟩
    · exact Gives.requiredItem hmeta _ _ _ hm
    · exact Gives.requiredItem readScheduleSpec_gives _ _ _ hs
    · exact getD_of_mem (Gives.item readScheduleStatus_gives _ _ _ hstatus) hinitial

lemma readWorkItem_gives (j : Json) : Gives WorkItem.Fits (readWorkItem stamp j) := by
  have hinitial : WorkItemStatus.initial.Fits :=
    ⟨by simp [WorkItemStatus.initial], by simp [WorkItemStatus.initial]⟩
  have hmeta := readMeta_gives hclock
  refine .struct (fun ms => ?_) (fun xs => ?_) j
  · refine .bind fun metadata hmetadata => .bind fun _ _ => .bind fun status hstatus => ?_
    refine .bind fun m hm => .ok ⟨?_, ?_⟩
    · exact Gives.required (Gives.member hmeta _ _ _ hmetadata) _ _ hm
    · exact getD_of_mem (Gives.member readWorkItemStatus_gives _ _ _ hstatus) hinitial
  · refine .bind fun m hm => .bind fun _ _ => .bind fun status hstatus => .ok ⟨?_, ?_⟩
    · exact Gives.requiredItem hmeta _ _ _ hm
    · exact getD_of_mem (Gives.item readWorkItemStatus_gives _ _ _ hstatus) hinitial

end

/-! ## What is written is read -/

lemma readOwner_write (r : OwnerReference) : readOwner (writeOwner r) = .ok r := by
  unfold writeOwner
  generalize hms : [("controller", Json.bool r.controller), ("kind", .str r.kind), ("name", .str r.name),
    ("uid", .str r.uid.render)] = ms
  have hcontroller : given ms "controller" readBool = .ok (some r.controller) :=
    given_eq (j := .bool r.controller) (by simp [← hms]) rfl
  have hkind : given ms "kind" readString = .ok (some r.kind) :=
    given_eq (j := .str r.kind) (by simp [← hms]) rfl
  have hname : given ms "name" readString = .ok (some r.name) :=
    given_eq (j := .str r.name) (by simp [← hms]) rfl
  have huid : given ms "uid" readUid = .ok (some r.uid) := given_eq (by simp [← hms]) (readUid_write r.uid)
  simp only [readOwner, readStruct, bind, Except.bind, hcontroller, hkind, hname, huid]
  rfl

lemma readReference_write (r : ObjectReference) : readReference (writeReference r) = .ok r := by
  unfold writeReference
  generalize hms : [("kind", Json.str r.kind), ("name", .str r.name), ("namespace", .str r.space),
    ("uid", .str r.uid.render)] = ms
  have hkind : given ms "kind" readString = .ok (some r.kind) :=
    given_eq (j := .str r.kind) (by simp [← hms]) rfl
  have hname : given ms "name" readString = .ok (some r.name) :=
    given_eq (j := .str r.name) (by simp [← hms]) rfl
  have hspace : given ms "namespace" readString = .ok (some r.space) :=
    given_eq (j := .str r.space) (by simp [← hms]) rfl
  have huid : given ms "uid" readUid = .ok (some r.uid) := given_eq (by simp [← hms]) (readUid_write r.uid)
  simp only [readReference, readStruct, bind, Except.bind, hkind, hname, hspace, huid]
  rfl

/-- A complete form leaves nothing to the stamp. -/
lemma readMeta_write {m : Meta} (h : m.Fits) (stamp : Stamp) : readMeta stamp (writeMeta m) = .ok m := by
  unfold writeMeta
  generalize hms : (writeLabels "annotations" m.annotations ++ [("creationTimestamp", writeTime m.created)] ++
    writeLabels "labels" m.labels ++ [("name", .str m.name), ("namespace", .str m.space)] ++
    nonempty "ownerReferences" writeOwner m.owners ++
    [("resourceVersion", writeNat m.version), ("uid", .str m.uid.render)]) = ms
  obtain ⟨annotations, hannotations, ha⟩ : Finds ms "annotations" readLabels ∅ m.annotations :=
    finds_labels (by simp [← hms])
  have hcreated : given ms "creationTimestamp" readTime = .ok (some m.created) :=
    given_eq (by simp [← hms]) (readTime_write h.created)
  obtain ⟨labels, hlabels, hl⟩ : Finds ms "labels" readLabels ∅ m.labels :=
    finds_labels (by simp [← hms])
  have hname : given ms "name" readString = .ok (some m.name) :=
    given_eq (j := .str m.name) (by simp [← hms]) rfl
  have hspace : given ms "namespace" readString = .ok (some m.space) :=
    given_eq (j := .str m.space) (by simp [← hms]) rfl
  obtain ⟨owners, howners, ho⟩ : Finds ms "ownerReferences" (readList readOwner) [] m.owners :=
    finds_nonempty (by simp [← hms]) fun r _ => readOwner_write r
  have hversion : given ms "resourceVersion" readWord64 = .ok (some m.version) :=
    given_eq (by simp [← hms]) (readWord64_write h.version)
  have huid : given ms "uid" readUid = .ok (some m.uid) := given_eq (by simp [← hms]) (readUid_write m.uid)
  simp only [readMeta, readStruct, bind, Except.bind, hannotations, hcreated, hlabels, hname, hspace, howners,
    hversion, huid, ha, hl, ho]
  rfl

lemma readTemplate_write (t : Template) : readTemplate (writeTemplate t) = .ok t := by
  unfold writeTemplate
  generalize hms : (writeLabels "annotations" t.annotations ++ writeLabels "labels" t.labels ++
    [("spec", t.spec)]) = ms
  obtain ⟨annotations, hannotations, ha⟩ : Finds ms "annotations" readLabels ∅ t.annotations :=
    finds_labels (by simp [← hms])
  obtain ⟨labels, hlabels, hl⟩ : Finds ms "labels" readLabels ∅ t.labels :=
    finds_labels (by simp [← hms])
  have hspec : given ms "spec" readAny = .ok (some t.spec) := given_eq (by simp [← hms]) rfl
  simp only [readTemplate, readStruct, bind, Except.bind, hannotations, hlabels, hspec, ha, hl]
  rfl

lemma readConcurrency_write (c : Concurrency) : readConcurrency (.str c.name) = .ok c :=
  readVariant_name (by cases c <;> decide)

lemma readPhase_write (p : Phase) : readPhase (.str p.name) = .ok p :=
  readVariant_name (by cases p <;> decide)

lemma readScheduleSpec_write {s : ScheduleSpec} (h : s.Fits) :
    readScheduleSpec (writeScheduleSpec s) = .ok s := by
  unfold writeScheduleSpec
  generalize hms : ([("concurrencyPolicy", Json.str s.concurrency.name)] ++
    optional "failedHistoryLimit" writeNat s.failedLimit ++ [("schedule", .str s.schedule)] ++
    optional "startingDeadlineSeconds" .int s.startingDeadline ++
    optional "successfulHistoryLimit" writeNat s.successfulLimit ++
    [("suspend", .bool s.suspend), ("template", writeTemplate s.template)]) = ms
  have hconcurrency : given ms "concurrencyPolicy" readConcurrency = .ok (some s.concurrency) :=
    given_eq (by simp [← hms]) (readConcurrency_write s.concurrency)
  obtain ⟨failed, hfailed, hf⟩ : Finds ms "failedHistoryLimit" (readOptional readWord32) none s.failedLimit :=
    finds_optional (by simp [← hms]) (fun n hn => readWord32_write (h.failedLimit n hn)) nofun
  have hschedule : given ms "schedule" readString = .ok (some s.schedule) :=
    given_eq (j := .str s.schedule) (by simp [← hms]) rfl
  obtain ⟨deadline, hdeadline, hd⟩ :
      Finds ms "startingDeadlineSeconds" (readOptional readSigned64) none s.startingDeadline :=
    finds_optional (by simp [← hms]) (fun n hn => readInt_int (h.deadline n hn) "i64") nofun
  obtain ⟨successful, hsuccessful, hs⟩ :
      Finds ms "successfulHistoryLimit" (readOptional readWord32) none s.successfulLimit :=
    finds_optional (by simp [← hms]) (fun n hn => readWord32_write (h.successfulLimit n hn)) nofun
  have hsuspend : given ms "suspend" readBool = .ok (some s.suspend) :=
    given_eq (j := .bool s.suspend) (by simp [← hms]) rfl
  have htemplate : given ms "template" readTemplate = .ok (some s.template) :=
    given_eq (by simp [← hms]) (readTemplate_write s.template)
  simp only [readScheduleSpec, readStruct, bind, Except.bind, hconcurrency, hfailed, hschedule, hdeadline,
    hsuccessful, hsuspend, htemplate, hf, hd, hs]
  rfl

lemma readScheduleStatus_write {s : ScheduleStatus} (h : s.Fits) :
    readScheduleStatus (writeScheduleStatus s) = .ok s := by
  unfold writeScheduleStatus
  generalize hms : (nonempty "active" writeReference s.active ++
    optional "lastScheduleTime" writeTime s.lastScheduled) = ms
  obtain ⟨active, hactive, ha⟩ : Finds ms "active" (readList readReference) [] s.active :=
    finds_nonempty (by simp [← hms]) fun r _ => readReference_write r
  obtain ⟨last, hlast, hl⟩ : Finds ms "lastScheduleTime" (readOptional readTime) none s.lastScheduled :=
    finds_optional (by simp [← hms]) (fun t ht => readTime_write (h t ht)) nofun
  simp only [readScheduleStatus, readStruct, bind, Except.bind, hactive, hlast, ha, hl]

lemma readWorkItemStatus_write {s : WorkItemStatus} (h : s.Fits) :
    readWorkItemStatus (writeWorkItemStatus s) = .ok s := by
  unfold writeWorkItemStatus
  generalize hms : (optional "completionTime" writeTime s.completed ++ [("phase", .str s.phase.name)] ++
    optional "startTime" writeTime s.started) = ms
  obtain ⟨completed, hcompleted, hc⟩ : Finds ms "completionTime" (readOptional readTime) none s.completed :=
    finds_optional (by simp [← hms]) (fun t ht => readTime_write (h.completed t ht)) nofun
  have hphase : given ms "phase" readPhase = .ok (some s.phase) :=
    given_eq (by simp [← hms]) (readPhase_write s.phase)
  obtain ⟨started, hstarted, hs⟩ : Finds ms "startTime" (readOptional readTime) none s.started :=
    finds_optional (by simp [← hms]) (fun t ht => readTime_write (h.started t ht)) nofun
  simp only [readWorkItemStatus, readStruct, bind, Except.bind, hcompleted, hphase, hstarted, hc, hs]
  rfl

end Manifest

namespace Registry
open Manifest

/-! ## Whole manifests -/

lemma readSchedule_write {s : Schedule} (h : s.Fits) (stamp : Stamp) :
    readSchedule stamp (withoutType (write (.schedule s))) = .ok s := by
  have hmembers : withoutType (write (.schedule s)) = .obj [("metadata", writeMeta s.metadata),
      ("spec", writeScheduleSpec s.spec), ("status", writeScheduleStatus s.status)] := by
    simp [withoutType, write]
  rw [hmembers]
  generalize hms : [("metadata", writeMeta s.metadata), ("spec", writeScheduleSpec s.spec),
    ("status", writeScheduleStatus s.status)] = ms
  have hmetadata : given ms "metadata" (readMeta stamp) = .ok (some s.metadata) :=
    given_eq (by simp [← hms]) (readMeta_write h.metadata stamp)
  have hspec : given ms "spec" readScheduleSpec = .ok (some s.spec) :=
    given_eq (by simp [← hms]) (readScheduleSpec_write h.spec)
  have hstatus : given ms "status" readScheduleStatus = .ok (some s.status) :=
    given_eq (by simp [← hms]) (readScheduleStatus_write h.status)
  simp only [readSchedule, readStruct, bind, Except.bind, hmetadata, hspec, hstatus]
  rfl

lemma readWorkItem_write {w : WorkItem} (h : w.Fits) (stamp : Stamp) :
    readWorkItem stamp (withoutType (write (.workItem w))) = .ok w := by
  have hmembers : withoutType (write (.workItem w)) = .obj [("metadata", writeMeta w.metadata),
      ("spec", w.spec), ("status", writeWorkItemStatus w.status)] := by
    simp [withoutType, write]
  rw [hmembers]
  generalize hms : [("metadata", writeMeta w.metadata), ("spec", w.spec),
    ("status", writeWorkItemStatus w.status)] = ms
  have hmetadata : given ms "metadata" (readMeta stamp) = .ok (some w.metadata) :=
    given_eq (by simp [← hms]) (readMeta_write h.metadata stamp)
  have hspec : given ms "spec" readAny = .ok (some w.spec) := given_eq (by simp [← hms]) rfl
  have hstatus : given ms "status" readWorkItemStatus = .ok (some w.status) :=
    given_eq (by simp [← hms]) (readWorkItemStatus_write h.status)
  simp only [readWorkItem, readStruct, bind, Except.bind, hmetadata, hspec, hstatus]
  rfl

lemma kindOf_write (o : Object) : kindOf (write o) = .ok o.kind := by
  have hparse : ∀ kind : Kind, Kind.parse kind.name = .ok kind := by
    intro kind
    cases kind <;> rfl
  have hname : kindOf (write o) = Kind.parse o.kind.name := by
    cases o <;> simp [kindOf, Json.get?, write]
  rw [hname, hparse]

/-- Setting defaults leaves alone what is read and checked, and there is nothing to do the second time. -/
lemma applyDefaults_spec (o : Object) :
    (applyDefaults o).kind = o.kind ∧ (applyDefaults o).key = o.key ∧ (o.Fits → (applyDefaults o).Fits) ∧
      applyDefaults (applyDefaults o) = applyDefaults o := by
  cases o with
  | workItem w => exact ⟨rfl, rfl, id, rfl⟩
  | schedule s =>
    have hlimit : ∀ (limit : Option Nat) (open? : Nat), open? ≤ Text.max32 → (∀ n ∈ limit, n ≤ Text.max32) →
        ∀ n ∈ limit.orElse fun _ => some open?, n ≤ Text.max32 := by
      intro limit open? hopen hlimit
      cases limit with
      | none => simpa using hopen
      | some n => exact hlimit
    have hagain : ∀ (limit : Option Nat) (open? : Nat),
        ((limit.orElse fun _ => some open?).orElse fun _ => some open?) =
          limit.orElse fun _ => some open? := by
      intro limit open?
      cases limit <;> rfl
    refine ⟨rfl, rfl, fun h => ⟨⟨h.1.metadata, ?_, h.1.status⟩, h.2⟩, ?_⟩
    · exact ⟨h.1.spec.deadline, hlimit _ _ (by decide) h.1.spec.successfulLimit,
        hlimit _ _ (by decide) h.1.spec.failedLimit⟩
    · simp only [applyDefaults, Schedule.withDefaults, hagain]

/-- An object that a registry may give for a manifest. -/
structure Accepts (r : Registry) (o : Object) : Prop where
  known : r.require o.kind = .ok ()
  fits : o.Fits
  key : ∃ key, (Key.of? o.key.space o.key.name).mapError ObjectError.invalidIdentity = .ok key
  defaults : applyDefaults o = o

lemma Accepts.decode_write {r : Registry} {o : Object} (h : r.Accepts o) (stamp : Stamp) :
    r.decode stamp (write o) = .ok o := by
  obtain ⟨key, hkey⟩ := h.key
  have hread : readKind stamp o.kind (write o) = .ok o := by
    cases o with
    | schedule s =>
      obtain ⟨hfits, hvalid⟩ := h.fits
      simp only [readKind, Object.kind, readSchedule_write hfits, hvalid, bind, Except.bind, Except.mapError]
    | workItem w =>
      simp only [readKind, Object.kind, readWorkItem_write h.fits, bind, Except.bind, Except.mapError]
  simp only [decode, kindOf_write, h.known, hread, hkey, h.defaults, bind, Except.bind]

section
variable {stamp : Stamp} (hclock : stamp.time.Civil)
include hclock

lemma readKind_gives (kind : Kind) (m : Json) :
    Gives (fun o => o.kind = kind ∧ o.Fits) (readKind stamp kind m) := by
  cases kind with
  | schedule =>
    refine .bind fun s hs => .bind fun _ hvalid => .ok ⟨rfl, ?_, hvalid⟩
    exact Gives.mapError (readSchedule_gives hclock _) s hs
  | workItem =>
    refine .bind fun w hw => .ok ⟨rfl, ?_⟩
    exact Gives.mapError (readWorkItem_gives hclock _) w hw

lemma decode_gives (r : Registry) (m : Json) : Gives r.Accepts (r.decode stamp m) := by
  refine .bind fun kind _ => .bind fun _ hknown => .bind fun o ho => .bind fun key hkey => .ok ?_
  obtain ⟨hkind, hfits⟩ := readKind_gives hclock kind m o ho
  obtain ⟨hsameKind, hsameKey, hkeeps, hidem⟩ := applyDefaults_spec o
  exact ⟨by rw [hsameKind, hkind, hknown], hkeeps hfits, ⟨key, hsameKey ▸ hkey⟩, hidem⟩

/-- What decoding gives is encoded, and decoded again whenever that is, to the same object. It is complete:
no default is left to set, and the encoded form is the same each time. -/
theorem encode_loses_nothing {r : Registry} {m : Json} {o : Object} (h : r.decode stamp m = .ok o) :
    ∃ e, r.encode o = .ok e ∧ (∀ later, r.decode later e = .ok o) ∧
      (∀ later, (r.decode later e).bind r.encode = .ok e) ∧ r.setDefaults o = .ok o := by
  have ho := decode_gives hclock r m o h
  have hencode : r.encode o = .ok (write o) := by
    simp only [encode, ho.known, bind, Except.bind]
  refine ⟨write o, hencode, ho.decode_write, fun later => ?_, ?_⟩
  · rw [ho.decode_write later]
    exact hencode
  · simp only [setDefaults, ho.known, ho.defaults, bind, Except.bind]

end

/-- A schedule of which much is left open, and the rest is spelled in unusual ways. -/
def loose : Json :=
  .obj [("kind", .str "CronSchedule"),
    ("metadata", .arr [.str "team", .str "nightly", .str "uid_01hv6zqq3w4f5g6h7j8k9mnpqr", .int 7,
      .str "+10000-1-2T03:04:60.25+01:30", .obj [("tier", .str "batch")]]),
    ("spec", .obj [("concurrencyPolicy", .obj [("Forbid", .null)]), ("failedHistoryLimit", .null),
      ("schedule", .str "0 2 * * *"), ("template", .arr [.obj [], .obj [], .int 5])]),
    ("status", .arr [.str "2024-02-29 12:00:00 UTC"])]

/-- The same schedule as it is encoded. -/
def tidy : Json :=
  .obj [("apiVersion", .str apiVersion), ("kind", .str "CronSchedule"),
    ("metadata", .obj [("creationTimestamp", .str "+10000-01-02T01:34:60.250Z"),
      ("labels", .obj [("tier", .str "batch")]), ("name", .str "nightly"), ("namespace", .str "team"),
      ("resourceVersion", .int 7), ("uid", .str "uid_01HV6ZQQ3W4F5G6H7J8K9MNPQR")]),
    ("spec", .obj [("concurrencyPolicy", .str "Forbid"), ("failedHistoryLimit", .int 1),
      ("schedule", .str "0 2 * * *"), ("successfulHistoryLimit", .int 3), ("suspend", .bool false),
      ("template", .obj [("spec", .int 5)])]),
    ("status", .obj [("lastScheduleTime", .str "2024-02-29T12:00:00Z")])]

/-- The leap second of the year 10000 survives, and so does the status. -/
theorem encode_loses_nothing_loose :
    ∃ o, standard.decode .blank loose = .ok o ∧ standard.encode o = .ok tidy ∧
      ∃ e, standard.encode o = .ok e ∧ (∀ later, standard.decode later e = .ok o) ∧
        (∀ later, (standard.decode later e).bind standard.encode = .ok e) ∧
        standard.setDefaults o = .ok o := by
  have hclock : Stamp.blank.time.Civil := ⟨by decide, by decide⟩
  have htidy : (standard.decode .blank loose).bind standard.encode = .ok tidy := by decide +kernel
  cases ho : standard.decode .blank loose with
  | error e =>
    rw [ho] at htidy
    exact nomatch htidy
  | ok o =>
    rw [ho] at htidy
    exact ⟨o, rfl, htidy, encode_loses_nothing hclock ho⟩

end Registry

end Timetable
