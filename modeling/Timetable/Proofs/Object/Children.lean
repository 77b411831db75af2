import Timetable.Proofs.Calendar.Instant
import Timetable.Proofs.Calendar.Rfc3339
import Timetable.Proofs.Identity.Name

/-!
# Children of a schedule

The child of a fire is found again by what it carries: its name tells schedule and fire apart, and its
annotation reads back as the fire. The status that children imply covers them.
-/

namespace Timetable

namespace Text

/-- A text is cut in one way only at its last separator. -/
lemma append_cons_inj_of_notMem {α : Type} {x : α} {as bs cs ds : List α} (hb : x ∉ bs) (hd : x ∉ ds)
    (h : as ++ x :: bs = cs ++ x :: ds) : as = cs ∧ bs = ds := by
  obtain ⟨es, hc, he⟩ | ⟨es, ha, he⟩ := List.append_eq_append_iff.1 h
  · cases es with
    | nil => exact ⟨by simpa using hc.symm, (List.cons.inj he).2⟩
    | cons y es =>
      have hbs : bs = es ++ x :: ds := (List.cons.inj he).2
      exact absurd (by simp [hbs]) hb
  · cases es with
    | nil => exact ⟨by simpa using ha, (List.cons.inj he).2.symm⟩
    | cons y es =>
      have hds : ds = es ++ x :: bs := (List.cons.inj he).2
      exact absurd (by simp [hds]) hd

lemma toDigits_injective {m n : Nat} (h : Nat.toDigits 10 m = Nat.toDigits 10 n) : m = n := by
  rw [← Nat.ofDigitChars_ten_toDigits (n := m), h, Nat.ofDigitChars_ten_toDigits]

lemma dash_notMem_toDigits (n : Nat) : '-' ∉ Nat.toDigits 10 n := fun h =>
  absurd (Nat.isDigit_of_mem_toDigits (by decide) (by decide) h) (by decide)

end Text

namespace Meta

/-- The controller is the first reference that says so. -/
lemma controller?_eq_some_iff {m : Meta} {r : OwnerReference} :
    m.controller? = some r ↔ r.controller = true ∧
      ∃ before after, m.owners = before ++ r :: after ∧ ∀ x ∈ before, x.controller = false := by
  unfold controller?
  rw [List.find?_eq_some_iff_append]
  simp only [Bool.not_eq_true']

end Meta

namespace WorkItem

/-! ## Names -/

/-- What stands between the name of a schedule and the dash before the digits. -/
def secondSign (second : Int) : List Char :=
  if 0 ≤ second then [] else ['-']

lemma toList_childName (name : String) (fire : Instant) :
    (childName name fire).toList =
      (name.toList ++ secondSign fire.second) ++ '-' :: Nat.toDigits 10 fire.second.natAbs := by
  unfold childName secondSign
  rw [String.toList_append, String.toList_append, Int.toString_eq_repr, Int.repr_eq_if]
  split_ifs with h
  · rw [Nat.toList_repr, show fire.second.toNat = fire.second.natAbs by omega]
    simp
  · rw [String.toList_append, Nat.toList_repr, show (-fire.second).toNat = fire.second.natAbs by omega]
    simp

/-- A child's name tells the name of its schedule and the second of its fire. -/
theorem childName_inj {m n : String} (hm : Name.validate m = .ok ()) (hn : Name.validate n = .ok ())
    {t u : Instant} (h : childName m t = childName n u) : m = n ∧ t.second = u.second := by
  have hlist := congrArg String.toList h
  rw [toList_childName, toList_childName] at hlist
  obtain ⟨hname, hdigits⟩ := Text.append_cons_inj_of_notMem (Text.dash_notMem_toDigits _)
    (Text.dash_notMem_toDigits _) hlist
  have habs := Text.toDigits_injective hdigits
  unfold secondSign at hname
  split_ifs at hname with ht hu hu
  · exact ⟨String.toList_injective (by simpa using hname), by omega⟩
  · exact absurd (by simpa using hname) (Name.ne_append_dash hm n.toList)
  · exact absurd (by simpa using hname.symm) (Name.ne_append_dash hn m.toList)
  · exact ⟨String.toList_injective (List.append_cancel_right hname), by omega⟩

/-! ## Templates -/

/-- A template with a spec and a valid name give the child, and nothing else does. -/
theorem ofTemplate_eq_ok_iff {s : Schedule} {fire : Instant} {w : WorkItem} :
    ofTemplate s fire = .ok w ↔
      s.spec.template.spec ≠ .null ∧ Name.validate (childName s.metadata.name fire) = .ok () ∧
        w = {
          metadata := { Meta.new s.metadata.space (childName s.metadata.name fire) .blank with
            labels := s.spec.template.labels.insert scheduleName s.metadata.name
            annotations := s.spec.template.annotations.insert scheduledAt fire.renderSeconds
            owners := [s.controllerReference] }
          spec := s.spec.template.spec
          status := .initial } := by
  unfold ofTemplate
  simp only [bind, Except.bind]
  split_ifs with hnull
  · simp [hnull]
  · cases Name.validate (childName s.metadata.name fire) with
    | error e => simp [Except.mapError]
    | ok _ => simp [Except.mapError, hnull, eq_comm]

theorem ofTemplate_spec {s : Schedule} {fire : Instant} {w : WorkItem}
    (h : ofTemplate s fire = .ok w) :
    w.metadata.key = ⟨s.metadata.space, childName s.metadata.name fire⟩ ∧
      w.metadata.owners = [s.controllerReference] ∧
      w.metadata.annotations[scheduledAt]? = some fire.renderSeconds := by
  obtain ⟨-, -, rfl⟩ := ofTemplate_eq_ok_iff.1 h
  exact ⟨rfl, rfl, by simp⟩

lemma status_of_template {s : Schedule} {fire : Instant} {w : WorkItem}
    (h : ofTemplate s fire = .ok w) : w.status = .initial := by
  obtain ⟨-, -, rfl⟩ := ofTemplate_eq_ok_iff.1 h
  rfl

/-- The annotation of a child reads back as the whole second of the fire it was launched for. -/
theorem scheduledTime_eq_cut {w : WorkItem} {fire : Instant} (hy : fire.InFourDigitYear)
    (h : w.metadata.annotations[scheduledAt]? = some fire.renderSeconds) :
    w.scheduledTime = .ok fire.cut := by
  unfold scheduledTime
  rw [h]
  simp only [parseScheduledTime, Instant.readStrict_renderSeconds hy, Except.mapError]

theorem scheduledTime_of_annotation {w : WorkItem} {fire : Instant} (hn : fire.nano = 0)
    (hy : fire.InFourDigitYear)
    (h : w.metadata.annotations[scheduledAt]? = some fire.renderSeconds) :
    w.scheduledTime = .ok fire := by
  rw [scheduledTime_eq_cut hy h, Instant.cut_of_whole hn]

end WorkItem

/-! ## Statuses -/

/-- The last launch of the implied status is no earlier than the creation, the recorded last launch and
the readable fires of the children. -/
theorem Schedule.desiredStatus_lastScheduled (s : Schedule) (children : List WorkItem) :
    ∃ last, (s.desiredStatus children).lastScheduled = some last ∧ s.metadata.created ≤ last ∧
      (∀ t, s.status.lastScheduled = some t → t ≤ last) ∧
      ∀ w ∈ children, ∀ t, w.scheduledTime = .ok t → t ≤ last := by
  obtain ⟨last, hlast⟩ := exists_latest (List.cons_ne_nil s.metadata.created
    (s.status.lastScheduled.toList ++ (latestScheduled children).toList))
  refine ⟨last, hlast, le_of_latest hlast List.mem_cons_self, fun t ht => ?_, fun w hw t ht => ?_⟩
  · exact le_of_latest hlast (by simp [ht])
  · have hmem : t ∈ children.filterMap fun w => w.scheduledTime.toOption :=
      List.mem_filterMap.2 ⟨w, hw, by simp [ht, Except.toOption]⟩
    obtain ⟨fire, hfire⟩ := exists_latest (List.ne_nil_of_mem hmem)
    have hmax : latestScheduled children = some fire := hfire
    exact (le_of_latest hfire hmem).trans (le_of_latest hlast (by simp [hmax]))

/-- The last launch of the implied status is one of the instants that it covers. -/
lemma Schedule.desiredStatus_lastScheduled_mem {s : Schedule} {children : List WorkItem} {t : Instant}
    (h : (s.desiredStatus children).lastScheduled = some t) :
    t = s.metadata.created ∨ s.status.lastScheduled = some t ∨ ∃ w ∈ children, w.scheduledTime = .ok t := by
  have hlatest : latest (s.metadata.created ::
      (s.status.lastScheduled.toList ++ (latestScheduled children).toList)) = some t := h
  have hin := (latest_eq_some_iff.1 hlatest).1
  simp only [List.mem_cons, List.mem_append, Option.mem_toList] at hin
  refine hin.imp_right (Or.imp_right fun hfire => ?_)
  obtain ⟨w, hw, hread⟩ := List.mem_filterMap.1 (latest_eq_some_iff.1 hfire).1
  refine ⟨w, hw, ?_⟩
  cases hfire : w.scheduledTime with
  | error e => simp [hfire, Except.toOption] at hread
  | ok u =>
    rw [hfire] at hread
    rw [Option.some.inj hread]

/-- The last launch of the implied status is the latest instant that it has to cover. -/
lemma Schedule.desiredStatus_lastScheduled_eq {s : Schedule} {children : List WorkItem} {t : Instant}
    (hmem : s.status.lastScheduled = some t ∨ ∃ w ∈ children, w.scheduledTime = .ok t)
    (hcreated : s.metadata.created ≤ t) (hlast : ∀ u, s.status.lastScheduled = some u → u ≤ t)
    (hchildren : ∀ w ∈ children, ∀ u, w.scheduledTime = .ok u → u ≤ t) :
    (s.desiredStatus children).lastScheduled = some t := by
  obtain ⟨last, heq, -, hrecorded, hfires⟩ := s.desiredStatus_lastScheduled children
  have hle : t ≤ last := by
    obtain h | ⟨w, hw, h⟩ := hmem
    · exact hrecorded t h
    · exact hfires w hw t h
  have hge : last ≤ t := by
    obtain rfl | h | ⟨w, hw, h⟩ := desiredStatus_lastScheduled_mem heq
    · exact hcreated
    · exact hlast last h
    · exact hchildren w hw last h
  rw [heq, le_antisymm hge hle]

/-- A status that the children imply is implied again. -/
lemma Schedule.desiredStatus_idem (s : Schedule) (children : List WorkItem) :
    ({ s with status := s.desiredStatus children }.desiredStatus children) = s.desiredStatus children := by
  obtain ⟨last, heq, hcreated, -, hfires⟩ := s.desiredStatus_lastScheduled children
  have hsame : ({ s with status := s.desiredStatus children }.desiredStatus children).lastScheduled =
      some last := by
    apply desiredStatus_lastScheduled_eq
    · exact Or.inl heq
    · exact hcreated
    · intro u hu
      exact (Option.some.inj (hu.symm.trans heq)).le
    · exact hfires
  have hactive : ({ s with status := s.desiredStatus children }.desiredStatus children).active =
      (s.desiredStatus children).active := rfl
  generalize { s with status := s.desiredStatus children }.desiredStatus children = again at *
  cases again
  rw [← heq] at hsame
  dsimp only at hsame hactive
  rw [hsame, hactive]

end Timetable
