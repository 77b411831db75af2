import Timetable.Proofs.Object.Launch
import Timetable.Proofs.Store.Lineage

/-!
# What requests keep

Requests that neither delete schedules nor create or delete work items keep all schedules under their UIDs
and all work items with what they were launched with.
-/

namespace Timetable

namespace Store
variable {s t u : Store}

/-- Every schedule is still there, and names stay valid. -/
structure KeepsSchedules (s t : Store) : Prop where
  kept : ∀ x, .schedule x ∈ s.objects → ∃ y, .schedule y ∈ t.objects ∧ y.metadata.uid = x.metadata.uid
  named : ∀ y, .schedule y ∈ t.objects →
    (∃ x, .schedule x ∈ s.objects ∧ x.metadata.name = y.metadata.name) ∨
      Name.validate y.metadata.name = .ok ()

/-- Every work item is still there, and none is new. -/
structure KeepsItems (s t : Store) : Prop where
  kept : ∀ v, .workItem v ∈ s.objects → ∃ w, .workItem w ∈ t.objects ∧ w.metadata.key = v.metadata.key
  old : ∀ w, .workItem w ∈ t.objects →
    ∃ v, .workItem v ∈ s.objects ∧ v.Copies w ∧ v.metadata.version ≤ w.metadata.version

lemma KeepsSchedules.of_eq (h : ∀ x, .schedule x ∈ t.objects ↔ .schedule x ∈ s.objects) :
    KeepsSchedules s t :=
  ⟨fun x hx => ⟨x, (h x).2 hx, rfl⟩, fun y hy => Or.inl ⟨y, (h y).1 hy, rfl⟩⟩

lemma KeepsItems.of_eq (h : ∀ w, .workItem w ∈ t.objects ↔ .workItem w ∈ s.objects) :
    KeepsItems s t :=
  ⟨fun v hv => ⟨v, (h v).2 hv, rfl⟩, fun w hw => ⟨w, (h w).1 hw, WorkItem.Copies.refl w, le_rfl⟩⟩

lemma SameData.keepsSchedules (h : SameData t s) : KeepsSchedules s t :=
  .of_eq fun x => by rw [h.objects]

lemma SameData.keepsItems (h : SameData t s) : KeepsItems s t :=
  .of_eq fun w => by rw [h.objects]

/-! ## Commits -/

lemma schedules_put {l : Listing} {y : Schedule} {key : Key} :
    (l.put (.schedule y)).schedules[key]? =
      if y.metadata.key = key then some y else l.schedules[key]? :=
  KeyMap.getElem?_insert _ _ _ _

lemma workItems_put {l : Listing} {w : WorkItem} {key : Key} :
    (l.put (.workItem w)).workItems[key]? =
      if w.metadata.key = key then some w else l.workItems[key]? :=
  KeyMap.getElem?_insert _ _ _ _

lemma workItems_erase {l : Listing} {gone key : Key} :
    (l.erase .workItem gone).workItems[key]? = if gone = key then none else l.workItems[key]? :=
  KeyMap.getElem?_erase _ _ _

lemma keepsItems_of_put_schedule {y : Schedule} (h : t.objects = s.objects.put (.schedule y)) :
    KeepsItems s t := by
  refine .of_eq fun w => ?_
  rw [Listing.mem_workItem, Listing.mem_workItem, h]
  rfl

lemma keepsSchedules_of_put_workItem {w : WorkItem} (h : t.objects = s.objects.put (.workItem w)) :
    KeepsSchedules s t := by
  refine .of_eq fun x => ?_
  rw [Listing.mem_schedule, Listing.mem_schedule, h]
  rfl

lemma mem_of_put_workItem {w : WorkItem} (h : t.objects = s.objects.put (.workItem w)) :
    .workItem w ∈ t.objects := by
  rw [Listing.mem_workItem, h, workItems_put, if_pos rfl]

lemma kept_of_put_workItem {w : WorkItem} (h : t.objects = s.objects.put (.workItem w))
    (hfree : s.objects.workItems[w.metadata.key]? = none) :
    ∀ v, .workItem v ∈ s.objects → .workItem v ∈ t.objects := by
  intro v hv
  rw [Listing.mem_workItem] at hv
  have hne : w.metadata.key ≠ v.metadata.key := by
    intro hkey
    rw [hkey, hv] at hfree
    simp at hfree
  rw [Listing.mem_workItem, h, workItems_put, if_neg hne]
  exact hv

lemma keepsSchedules_of_erase_workItem {key : Key} (h : t.objects = s.objects.erase .workItem key) :
    KeepsSchedules s t := by
  refine .of_eq fun x => ?_
  rw [Listing.mem_schedule, Listing.mem_schedule, h]
  rfl

/-- A schedule is put where none was or in the place of one with its UID. -/
lemma keepsSchedules_of_put {y : Schedule} (h : t.objects = s.objects.put (.schedule y))
    (hplace : ∀ x, s.objects.schedules[y.metadata.key]? = some x → x.metadata.uid = y.metadata.uid)
    (hname : (∃ x, .schedule x ∈ s.objects ∧ x.metadata.name = y.metadata.name) ∨
      Name.validate y.metadata.name = .ok ()) : KeepsSchedules s t := by
  have hput : ∀ z, .schedule z ∈ t.objects ↔
      (if y.metadata.key = z.metadata.key then some y else s.objects.schedules[z.metadata.key]?) =
        some z := by
    intro z
    rw [Listing.mem_schedule, h, schedules_put]
  constructor
  · intro x hx
    rw [Listing.mem_schedule] at hx
    by_cases hkey : y.metadata.key = x.metadata.key
    · refine ⟨y, (hput y).2 (if_pos rfl), ?_⟩
      exact (hplace x (hkey ▸ hx)).symm
    · refine ⟨x, (hput x).2 ?_, rfl⟩
      rw [if_neg hkey]
      exact hx
  · intro z hz
    rw [hput] at hz
    split_ifs at hz with hkey
    · rw [← Option.some.inj hz]
      exact hname
    · exact Or.inl ⟨z, Listing.mem_schedule.2 hz, rfl⟩

/-- A work item is put in the place of one with the same launch. -/
lemma keepsItems_of_put {v w : WorkItem} (h : t.objects = s.objects.put (.workItem w))
    (hv : .workItem v ∈ s.objects) (hc : v.Copies w) (hle : v.metadata.version ≤ w.metadata.version) :
    KeepsItems s t := by
  have hput : ∀ z, .workItem z ∈ t.objects ↔
      (if w.metadata.key = z.metadata.key then some w else s.objects.workItems[z.metadata.key]?) =
        some z := by
    intro z
    rw [Listing.mem_workItem, h, workItems_put]
  constructor
  · intro u hu
    by_cases hkey : w.metadata.key = u.metadata.key
    · exact ⟨w, (hput w).2 (if_pos rfl), hkey⟩
    · refine ⟨u, (hput u).2 ?_, rfl⟩
      rw [if_neg hkey]
      exact Listing.mem_workItem.1 hu
  · intro z hz
    rw [hput] at hz
    split_ifs at hz with hkey
    · rw [← Option.some.inj hz]
      exact ⟨v, hv, hc, hle⟩
    · exact ⟨z, Listing.mem_workItem.2 hz, WorkItem.Copies.refl z, le_rfl⟩

end Store

/-! ## Requests -/

/-- Requests of clients that leave the deletion of schedules, the status of schedules and the creation and
deletion of work items alone. -/
def Request.Outside (stores : List Store) : Request → Prop
  | .createSchedule stamp _ => Unused stores stamp.uid
  | .updateSchedule _ | .updateWorkItemStatus _ | .setFaults _ => True
  | _ => False

section
variable {s : Store} {past : List Store} {r : Request}

lemma Request.Outside.permitted {stores : List Store} (h : r.Outside stores) : r.Permitted stores := by
  cases r with
  | createSchedule stamp x => exact h
  | updateScheduleStatus x => exact h
  | _ => trivial

lemma Request.Outside.stages {stores : List Store} (h : r.Outside stores) :
    s.stages r = [s.serve r] := by
  cases r with
  | deleteSchedule key propagation => exact h.elim
  | _ => rfl

lemma keeps_of_edit {t : Store} {current y : Schedule} (hc : Chronicle (s :: past))
    (hget : ∃ key : Key, s.objects.schedules[key]? = some current)
    (hkey : y.metadata.key = current.metadata.key) (huid : y.metadata.uid = current.metadata.uid)
    (h : t.objects = s.objects.put (.schedule y)) : s.KeepsSchedules t ∧ s.KeepsItems t := by
  obtain ⟨key, hget⟩ := hget
  have hmem := Store.mem_of_get? hc List.mem_cons_self hget
  refine ⟨Store.keepsSchedules_of_put h ?_ (Or.inl ⟨current, hmem, ?_⟩),
    Store.keepsItems_of_put_schedule h⟩
  · intro x hx
    rw [hkey, Listing.mem_schedule.1 hmem] at hx
    rw [← Option.some.inj hx, huid]
  · exact (congrArg Key.name hkey).symm

theorem Request.Outside.keeps (hc : Chronicle (s :: past)) (hr : r.Outside (s :: past)) :
    s.KeepsSchedules (s.serve r) ∧ s.KeepsItems (s.serve r) := by
  cases r with
  | createSchedule stamp x =>
    obtain ⟨e, he⟩ | ⟨hfree, hvalid, hok⟩ := Store.createSchedule_cases s stamp x
    · have hserve : s.serve (.createSchedule stamp x) = s := congrArg Prod.snd he
      rw [hserve]
      exact ⟨(Store.SameData.refl s).keepsSchedules, (Store.SameData.refl s).keepsItems⟩
    · have hput : (s.serve (.createSchedule stamp x)).objects =
          s.objects.put (.schedule (s.newSchedule stamp x)) := by
        simp only [Store.serve, hok]
        rfl
      obtain ⟨key, hkey⟩ := hvalid
      refine ⟨Store.keepsSchedules_of_put hput ?_ (Or.inr (Key.of?_eq_ok_iff.1 hkey).2.1),
        Store.keepsItems_of_put_schedule hput⟩
      intro y hy
      have htaken : s.objects.schedules[x.metadata.key]? = some y := hy
      rw [hfree] at htaken
      simp at htaken
  | updateSchedule x =>
    obtain ⟨e, he⟩ | ⟨current, hget, -, hok⟩ := Store.updateSchedule_cases s x
    · have hserve : s.serve (.updateSchedule x) = s := congrArg Prod.snd he
      rw [hserve]
      exact ⟨(Store.SameData.refl s).keepsSchedules, (Store.SameData.refl s).keepsItems⟩
    · refine keeps_of_edit (y := s.edited x current) hc ⟨_, hget⟩ rfl rfl ?_
      simp only [Store.serve, hok]
      rfl
  | updateWorkItemStatus w =>
    obtain ⟨e, t, he, ht⟩ | ⟨current, hget, -, t, hok, ht⟩ := Store.updateWorkItemStatus_cases s w
    · have hserve : s.serve (.updateWorkItemStatus w) = t := congrArg Prod.snd he
      rw [hserve]
      exact ⟨ht.keepsSchedules, ht.keepsItems⟩
    · have hserve : s.serve (.updateWorkItemStatus w) = t := congrArg Prod.snd hok
      have hput : t.objects = s.objects.put (.workItem (s.withItemStatusOf w current)) := ht.objects
      have hmem : .workItem current ∈ s.objects := by
        have hg : s.objects.get? .workItem w.metadata.key = some (.workItem current) := by
          rw [Listing.get?_workItem, hget]
          rfl
        exact (hc.keyed List.mem_cons_self).mem hg
      have hle : current.metadata.version ≤ s.version := hc.mem_version_le List.mem_cons_self hmem
      rw [hserve]
      exact ⟨Store.keepsSchedules_of_put_workItem hput,
        Store.keepsItems_of_put hput hmem ⟨rfl, rfl, rfl⟩ (hle.trans (Nat.le_succ _))⟩
  | setFaults faults =>
    have hsame : Store.SameData (s.serve (.setFaults faults)) s := ⟨rfl, rfl, rfl⟩
    exact ⟨hsame.keepsSchedules, hsame.keepsItems⟩
  | _ => exact hr.elim

end

end Timetable
