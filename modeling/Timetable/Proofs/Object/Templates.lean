import Timetable.Manifest.Registry
import Timetable.Proofs.Calendar.Lenient
import Timetable.Proofs.Cron.Progress
import Timetable.Proofs.Object.Naming

/-!
# Children from templates

Admission checks that the names of a schedule are valid and that its own one leaves room for the suffix of its
children. That is all that the launch of a child needs, next to a template with a spec. What the child carries leads back
to the schedule and to the fire, whatever the template says.
-/

namespace Timetable

open WorkItem (ofTemplate childName scheduleName scheduledAt)

namespace Schedule
variable {s x : Schedule} {stamp : Stamp} {fire : Instant}

/-- A schedule that decoding gives, that a store accepts, or that it gives back then. -/
inductive Admitted (s : Schedule) : Prop
  | decoded {r : Registry} {stamp : Stamp} {manifest : Json} :
      r.decode stamp manifest = .ok (.schedule s) → Admitted s
  | accepted {t : Store} {stamp : Stamp} {created : Schedule} :
      (t.createSchedule stamp s).1 = .ok created → Admitted s
  | created {t : Store} {stamp : Stamp} {x : Schedule} :
      (t.createSchedule stamp x).1 = .ok s → Admitted s

/-- The names are valid, and the schedule's leaves room for the suffix of its children. -/
structure WellNamed (s : Schedule) : Prop where
  space : Name.validate s.metadata.space = .ok ()
  name : Name.validate s.metadata.name = .ok ()
  room : s.metadata.name.utf8ByteSize ≤ maxNameLength

lemma validateName_eq_ok_iff : s.validateName = .ok () ↔ s.metadata.name.utf8ByteSize ≤ maxNameLength := by
  unfold validateName
  dsimp only
  split_ifs with hlong
  · simp [Nat.not_le.2 hlong]
  · simp [Nat.not_lt.1 hlong]

lemma wellNamed_of_key (hkey : ∃ key, Key.of? s.metadata.space s.metadata.name = .ok key)
    (hroom : s.validateName = .ok ()) : s.WellNamed := by
  obtain ⟨key, hkey⟩ := hkey
  obtain ⟨hspace, hname, -⟩ := Key.of?_eq_ok_iff.1 hkey
  exact ⟨hspace, hname, validateName_eq_ok_iff.1 hroom⟩

lemma validateName_of_validate (h : s.validate = .ok ()) : s.validateName = .ok () := by
  cases hname : s.validateName with
  | ok _ => rfl
  | error e => simp [validate, hname, bind, Except.bind] at h

lemma validateName_of_create {t : Store} {y : Schedule} (h : (t.createSchedule stamp x).1 = .ok y) :
    x.validateName = .ok () := by
  cases hname : x.validateName with
  | ok _ => rfl
  | error e => simp [Store.createSchedule, hname] at h

/-! ## Admission -/

lemma readKind_gives_named (kind : Kind) (manifest : Json) :
    Gives (fun o => ∀ s, o = .schedule s → s.validateName = .ok ()) (Registry.readKind stamp kind manifest) := by
  cases kind with
  | schedule =>
    refine .bind fun x _ => .bind fun _ hvalid => .ok ?_
    rintro s hs
    obtain rfl := Object.schedule.inj hs
    exact validateName_of_validate hvalid
  | workItem =>
    refine .bind fun w _ => .ok ?_
    rintro s ⟨⟩

lemma decode_gives_wellNamed (r : Registry) (manifest : Json) :
    Gives (fun o => ∀ s, o = .schedule s → s.WellNamed) (r.decode stamp manifest) := by
  refine .bind fun kind _ => .bind fun _ _ => .bind fun o ho => .bind fun key hkey => .ok ?_
  intro s hs
  cases o with
  | workItem w => exact nomatch hs
  | schedule x =>
    obtain rfl := Object.schedule.inj hs
    have hvalid : ∃ key, Key.of? x.metadata.space x.metadata.name = .ok key := by
      change (Key.of? x.metadata.space x.metadata.name).mapError _ = _ at hkey
      cases hof : Key.of? x.metadata.space x.metadata.name with
      | ok key => exact ⟨key, rfl⟩
      | error e => simp [hof, Except.mapError] at hkey
    have hnamed := wellNamed_of_key hvalid (readKind_gives_named kind manifest _ ho x rfl)
    exact ⟨hnamed.space, hnamed.name, hnamed.room⟩

theorem Admitted.wellNamed (h : s.Admitted) : s.WellNamed := by
  cases h with
  | decoded h => exact decode_gives_wellNamed _ _ _ h s rfl
  | @accepted t stamp y h =>
    obtain ⟨e, he⟩ | ⟨-, hkey, -⟩ := t.createSchedule_cases stamp s
    · simp [he] at h
    · exact wellNamed_of_key hkey (validateName_of_create h)
  | @created t stamp x h =>
    obtain ⟨e, he⟩ | ⟨-, hkey, hok⟩ := t.createSchedule_cases stamp x
    · simp [he] at h
    · have hnamed := wellNamed_of_key hkey (validateName_of_create h)
      rw [hok] at h
      obtain rfl := Except.ok.inj h
      exact ⟨hnamed.space, hnamed.name, hnamed.room⟩

/-! ## Children -/

lemma inFourDigitYear_of_range (hlow : -999999999 ≤ fire.second) (hhigh : fire.second ≤ 9999999999) :
    fire.InFourDigitYear := by
  let latest : Instant := ⟨9999999999, 1999999999, by decide⟩
  have hfirst : (Instant.ofSecond (-999999999)).InFourDigitYear := by
    unfold Instant.InFourDigitYear
    decide +kernel
  have hlast : latest.InFourDigitYear := by
    unfold Instant.InFourDigitYear
    decide +kernel
  have hnano := fire.nano_lt
  refine hfirst.between hlast ?_ ?_
  · rw [Instant.le_def]
    simp only [Instant.ofSecond]
    omega
  · rw [Instant.le_def]
    simp only [latest]
    omega

lemma isControlledBy_of_template {w : WorkItem} (h : ofTemplate s fire = .ok w) :
    w.metadata.isControlledBy s.metadata = true := by
  obtain ⟨-, -, rfl⟩ := WorkItem.ofTemplate_eq_ok_iff.1 h
  simp [Meta.isControlledBy, Meta.controller?, Meta.new, controllerReference]

/-- What is launched keeps the labels and annotations of the template, but for the two that are its own. -/
lemma kept_of_template {w : WorkItem} (h : ofTemplate s fire = .ok w) :
    (∀ label, label ≠ scheduleName → w.metadata.labels[label]? = s.spec.template.labels[label]?) ∧
      ∀ note, note ≠ scheduledAt →
        w.metadata.annotations[note]? = s.spec.template.annotations[note]? := by
  obtain ⟨-, -, rfl⟩ := WorkItem.ofTemplate_eq_ok_iff.1 h
  have hkept : ∀ (m : Labels) (stamped value other : String), other ≠ stamped →
      (m.insert stamped value)[other]? = m[other]? := by
    intro m stamped value other hne
    rw [Std.ExtTreeMap.getElem?_insert, if_neg]
    rw [Std.LawfulEqOrd.compare_eq_iff_eq]
    exact hne.symm
  exact ⟨fun label => hkept _ _ _ label, fun note => hkept _ _ _ note⟩

end Schedule

/-- Whatever an expression fires at is a whole second. -/
lemma Cron.Expr.whole_of_nextAfter {e : Cron.Expr} {t u : Instant} (h : e.nextAfter t = .at u) : u.nano = 0 := by
  unfold nextAfter at h
  split at h
  · exact (Fields.nextAfter_later h).2
  · split at h
    · rename_i fire hfire
      obtain ⟨-, hshift⟩ := Instant.add?_eq_some_iff.1 hfire
      rw [← Upcoming.at.inj h, ← hshift, Instant.truncate_shift]
      rfl
    · exact nomatch h

/-- A schedule that was admitted launches a child for every fire of ten digits, or of a sign and nine, unless its
template has no spec. The child has a valid key and keeps what the template says, it is controlled by the schedule, and
its annotation tells the whole second of the fire. That is the fire itself if an expression gave it. -/
theorem Schedule.Admitted.launches {s : Schedule} (h : s.Admitted) {fire : Instant}
    (hlow : -999999999 ≤ fire.second) (hhigh : fire.second ≤ 9999999999) :
    ((∃ w, ofTemplate s fire = .ok w) ↔ s.spec.template.spec ≠ .null) ∧
      (∀ w, ofTemplate s fire = .ok w →
        Key.of? w.metadata.space w.metadata.name = .ok ⟨s.metadata.space, childName s.metadata.name fire⟩ ∧
          w.scheduledTime = .ok fire.cut ∧ w.metadata.isControlledBy s.metadata = true ∧
          (∀ label, label ≠ scheduleName → w.metadata.labels[label]? = s.spec.template.labels[label]?) ∧
          ∀ note, note ≠ scheduledAt →
            w.metadata.annotations[note]? = s.spec.template.annotations[note]?) ∧
      ((fire.isLeap = true → fire.second % 60 = 59) →
        fire.cut.second = fire.second ∧ fire.cut.nano = fire.nano - fire.nano % giga) ∧
      ∀ (e : Cron.Expr) (t : Instant), e.nextAfter t = .at fire →
        fire.cut = fire ∧ ∀ w, ofTemplate s fire = .ok w → w.scheduledTime = .ok fire := by
  obtain ⟨hspace, hname, hroom⟩ := h.wellNamed
  have hchild := WorkItem.validate_childName hname hroom hlow hhigh
  have hread : ∀ w, ofTemplate s fire = .ok w → w.scheduledTime = .ok fire.cut := fun w hw =>
    WorkItem.scheduledTime_eq_cut (inFourDigitYear_of_range hlow hhigh) (WorkItem.ofTemplate_spec hw).2.2
  refine ⟨⟨?_, fun hspec => ?_⟩, fun w hw => ⟨?_, hread w hw, isControlledBy_of_template hw, kept_of_template hw⟩,
    Instant.cut_of_civil, fun e t hfire => ?_⟩
  · rintro ⟨w, hw⟩
    exact (WorkItem.ofTemplate_eq_ok_iff.1 hw).1
  · exact ⟨_, WorkItem.ofTemplate_eq_ok_iff.2 ⟨hspec, hchild, rfl⟩⟩
  · obtain ⟨-, -, rfl⟩ := WorkItem.ofTemplate_eq_ok_iff.1 hw
    exact Key.of?_eq_ok_iff.2 ⟨hspace, hchild, rfl⟩
  · have hcut := Instant.cut_of_whole (Cron.Expr.whole_of_nextAfter hfire)
    exact ⟨hcut, fun w hw => (hread w hw).trans (by rw [hcut])⟩

/-- A schedule whose template carries the annotation that its children are stamped with. -/
def Schedule.stamped : Schedule :=
  { Schedule.minutely with spec := { Schedule.minutely.spec with template :=
      ⟨∅, (Std.ExtTreeMap.empty.insert scheduledAt "yesterday").insert "note" "kept", .bool true⟩ } }

/-- Half a second into the leap second that ended 2016. -/
def leapFire : Instant := ⟨1483228799, 1500000000, by decide⟩

lemma Schedule.stamped_admitted : Schedule.stamped.Admitted := by
  obtain ⟨e, he⟩ | ⟨-, -, hok⟩ := Store.empty.createSchedule_cases .blank Schedule.stamped
  · have hcreated : (Store.empty.createSchedule .blank Schedule.stamped).1.isOk = true := by decide +kernel
    rw [he] at hcreated
    exact absurd hcreated (by simp [Except.isOk, Except.toBool])
  · have haccepted : (Store.empty.createSchedule .blank Schedule.stamped).1 =
        .ok (Store.empty.newSchedule .blank Schedule.stamped) := by rw [hok]
    exact .accepted haccepted

/-- The leap second is told, and its half is cut. -/
theorem Schedule.Admitted.launches_stamped :
    Schedule.stamped.Admitted ∧ ∃ w, ofTemplate Schedule.stamped leapFire = .ok w ∧
      w.scheduledTime = .ok ⟨1483228799, 1000000000, by decide⟩ ∧ w.metadata.annotations["note"]? = some "kept" := by
  have hadmitted := Schedule.stamped_admitted
  obtain ⟨hiff, hchild, -, -⟩ := @Schedule.Admitted.launches _ hadmitted leapFire (by decide) (by decide)
  obtain ⟨w, hw⟩ := hiff.2 (by decide)
  obtain ⟨-, htime, -, -, hannotations⟩ := hchild w hw
  refine ⟨hadmitted, w, hw, htime, ?_⟩
  rw [hannotations "note" (by decide)]
  decide +kernel

end Timetable
