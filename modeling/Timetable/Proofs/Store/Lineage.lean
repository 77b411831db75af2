import Mathlib.Data.List.Pairwise
import Timetable.Proofs.Calendar.Instant
import Timetable.Proofs.Store.Chronicle

/-!
# Lineages of schedules

Through a chronicle the schedules of one UID keep their key and their creation time, and their last launch
does not go back, if no new schedule takes a UID that was in use and no request sets the last launch back.
-/

namespace Timetable

/-- An instant is recorded no later than another; none is the least. -/
def NoLater (a b : Option Instant) : Prop :=
  ∀ s, a = some s → ∃ t, b = some t ∧ s ≤ t

lemma NoLater.refl (a : Option Instant) : NoLater a a := fun s hs => ⟨s, hs, le_rfl⟩

lemma NoLater.trans {a b c : Option Instant} (h : NoLater a b) (h' : NoLater b c) : NoLater a c := by
  intro s hs
  obtain ⟨t, ht, hst⟩ := h s hs
  obtain ⟨u, hu, htu⟩ := h' t ht
  exact ⟨u, hu, hst.trans htu⟩

/-- A schedule is an earlier form of another one. -/
structure Schedule.Continues (x y : Schedule) : Prop where
  key : y.metadata.key = x.metadata.key
  uid : y.metadata.uid = x.metadata.uid
  created : y.metadata.created = x.metadata.created
  last : NoLater x.status.lastScheduled y.status.lastScheduled

namespace Schedule.Continues
variable {x y z : Schedule}

lemma refl (x : Schedule) : x.Continues x := ⟨rfl, rfl, rfl, NoLater.refl _⟩

lemma trans (h : x.Continues y) (h' : y.Continues z) : x.Continues z :=
  ⟨h'.key.trans h.key, h'.uid.trans h.uid, h'.created.trans h.created, h.last.trans h'.last⟩

end Schedule.Continues

namespace Listing
variable {l : Listing}

lemma mem_schedule {x : Schedule} :
    .schedule x ∈ l ↔ l.schedules[x.metadata.key]? = some x := by
  rw [mem_def]
  simp [Object.kind, Object.key, Object.metadata]

lemma mem_workItem {w : WorkItem} :
    .workItem w ∈ l ↔ l.workItems[w.metadata.key]? = some w := by
  rw [mem_def]
  simp [Object.kind, Object.key, Object.metadata]

end Listing

/-- One of some stores had the schedule. -/
def Held (stores : List Store) (x : Schedule) : Prop :=
  ∃ t ∈ stores, .schedule x ∈ t.objects

/-- No schedule of some stores has the UID. -/
def Unused (stores : List Store) (uid : Uid) : Prop :=
  ∀ x, Held stores x → x.metadata.uid ≠ uid

/-- Schedules of a store continue those with their UID in an earlier one. -/
def Descends (newer older : Store) : Prop :=
  ∀ x y, .schedule x ∈ older.objects → .schedule y ∈ newer.objects →
    x.metadata.uid = y.metadata.uid → x.Continues y

/-- Every store descends from itself and from the earlier ones. -/
structure Lineage (stores : List Store) : Prop where
  pairwise : stores.Pairwise Descends
  self : ∀ t ∈ stores, Descends t t

/-- The schedules of a store continue schedules of the store before, except one at most, whose UID is
new. -/
def Renews (stores : List Store) (s t : Store) : Prop :=
  ∃ new : Option Schedule, ∀ y, .schedule y ∈ t.objects →
    (new = some y ∧ Unused stores y.metadata.uid) ∨ ∃ x, .schedule x ∈ s.objects ∧ x.Continues y

section
variable {stores past : List Store} {s t : Store}

lemma Held.mono {old : List Store} {x : Schedule} (h : Held old x) (hsub : old ⊆ stores) :
    Held stores x := by
  obtain ⟨t, ht, hx⟩ := h
  exact ⟨t, hsub ht, hx⟩

lemma lineage_empty : Lineage [.empty] := by
  have hnone : ∀ x : Schedule, .schedule x ∉ Store.empty.objects := by
    intro x hx
    rw [Listing.mem_def] at hx
    simp [Store.empty] at hx
  constructor
  · exact List.pairwise_singleton _ _
  · intro t ht x y hx
    rw [List.mem_singleton.1 ht] at hx
    exact absurd hx (hnone x)

lemma Lineage.descends (h : Lineage (s :: past)) {u : Store} (hu : u ∈ s :: past) : Descends s u := by
  obtain rfl | hmem := List.mem_cons.1 hu
  · exact h.self u hu
  · exact List.rel_of_pairwise_cons h.pairwise hmem

lemma Lineage.key_eq (h : Lineage stores) {x y : Schedule} (hx : Held stores x) (hy : Held stores y)
    (huid : x.metadata.uid = y.metadata.uid) : x.metadata.key = y.metadata.key := by
  obtain ⟨t, ht, hxt⟩ := hx
  obtain ⟨u, hu, hyu⟩ := hy
  have hsymm : Std.Symm fun t u : Store => Descends t u ∨ Descends u t := ⟨fun _ _ => Or.symm⟩
  have hpair : stores.Pairwise fun t u => Descends t u ∨ Descends u t := h.pairwise.imp Or.inl
  have hself : ∀ t ∈ stores, Descends t t ∨ Descends t t := fun v hv => Or.inl (h.self v hv)
  obtain hd | hd := hpair.forall_of_forall hself ht hu
  · exact (hd y x hyu hxt huid.symm).key
  · exact (hd x y hxt hyu huid).key.symm

theorem Lineage.cons (h : Lineage (s :: past)) (hr : Renews (s :: past) s t) :
    Lineage (t :: s :: past) := by
  obtain ⟨new, hnew⟩ := hr
  have hs : s ∈ s :: past := List.mem_cons_self
  constructor
  · refine List.Pairwise.cons ?_ h.pairwise
    intro u hu x y hx hy huid
    obtain ⟨-, hunused⟩ | ⟨z, hz, hzy⟩ := hnew y hy
    · exact absurd huid (hunused x ⟨u, hu, hx⟩)
    · exact (h.descends hu x z hx hz (huid.trans hzy.uid)).trans hzy
  · intro u hu
    obtain rfl | hu := List.mem_cons.1 hu
    · intro x y hx hy huid
      obtain ⟨hx', hunused⟩ | ⟨z, hz, hzx⟩ := hnew x hx <;>
        obtain ⟨hy', hunused'⟩ | ⟨z', hz', hzy⟩ := hnew y hy
      · rw [Option.some.inj (hx'.symm.trans hy')]
        exact Schedule.Continues.refl y
      · exact absurd (hzy.uid.symm.trans huid.symm) (hunused z' ⟨s, hs, hz'⟩)
      · exact absurd (hzx.uid.symm.trans huid) (hunused' z ⟨s, hs, hz⟩)
      · -- schedules of one UID in one store have one key
        have hzz := h.self s hs z z' hz hz' (hzx.uid.symm.trans (huid.trans hzy.uid))
        have hkey : y.metadata.key = x.metadata.key := by
          rw [hzy.key, hzz.key, hzx.key]
        rw [Listing.mem_schedule] at hx hy
        rw [hkey, hx] at hy
        rw [Option.some.inj hy]
        exact Schedule.Continues.refl y
    · exact h.self u hu

/-! ## Requests -/

lemma Renews.of_subset (h : ∀ y, .schedule y ∈ t.objects → .schedule y ∈ s.objects) :
    Renews stores s t :=
  ⟨none, fun y hy => Or.inr ⟨y, h y hy, Schedule.Continues.refl y⟩⟩

lemma Renews.of_sameData (h : Store.SameData t s) : Renews stores s t :=
  .of_subset fun _ hy => h.objects ▸ hy

lemma mem_commit {type : ChangeType} {o p : Object} (h : Store.SameData t (s.commit type o))
    (hp : p ∈ t.objects) : p = o.withVersion (s.version + 1) ∨ p ∈ s.objects := by
  rw [h.objects] at hp
  exact Listing.mem_apply hp

lemma Renews.of_deleted {o : Object} (h : Store.SameData t (s.commit .deleted o)) :
    Renews stores s t := by
  refine .of_subset fun y hy => ?_
  rw [h.objects] at hy
  exact Listing.mem_erase hy

lemma Renews.of_workItem {type : ChangeType} {w : WorkItem}
    (h : Store.SameData t (s.commit type (.workItem w))) : Renews stores s t := by
  refine .of_subset fun y hy => ?_
  obtain hy | hy := mem_commit h hy
  · exact absurd hy (by simp [Object.withVersion])
  · exact hy

lemma Renews.of_edit {x y : Schedule} (hx : .schedule x ∈ s.objects) (hxy : x.Continues y)
    (h : Store.SameData t (s.commit .modified (.schedule y))) : Renews stores s t := by
  refine ⟨none, fun z hz => Or.inr ?_⟩
  obtain hz | hz := mem_commit h hz
  · obtain rfl := Object.schedule.inj hz
    exact ⟨x, hx, hxy.key, hxy.uid, hxy.created, hxy.last⟩
  · exact ⟨z, hz, Schedule.Continues.refl z⟩

lemma Renews.of_new {x : Schedule} (hunused : Unused stores x.metadata.uid)
    (h : Store.SameData t (s.commit .added (.schedule x))) : Renews stores s t := by
  refine ⟨some { x with metadata := { x.metadata with version := s.version + 1 } }, fun y hy => ?_⟩
  obtain hy | hy := mem_commit h hy
  · obtain rfl := Object.schedule.inj hy
    exact Or.inl ⟨rfl, hunused⟩
  · exact Or.inr ⟨y, hy, Schedule.Continues.refl y⟩

lemma Lineage.releases (h : Lineage (s :: past)) (propagation : Propagation) (owner : Meta)
    (ws : List WorkItem) : Lineage (Store.releases propagation owner s ws ++ past) := by
  induction ws generalizing s past with
  | nil => exact h
  | cons w ws ih =>
    have hnext : Lineage (Store.release propagation owner s w :: s :: past) := by
      refine h.cons ?_
      cases propagation with
      | background => exact .of_deleted (Store.SameData.refl _)
      | orphan => exact .of_workItem (Store.SameData.refl _)
    have hall := ih hnext
    rw [Store.releases, List.append_assoc]
    exact hall

end

/-- Requests of clients that write no status and give each new schedule a UID of its own. -/
def Request.Permitted (stores : List Store) : Request → Prop
  | .updateScheduleStatus _ => False
  | .createSchedule stamp _ => Unused stores stamp.uid
  | _ => True

lemma Store.mem_of_get? {stores : List Store} {s : Store} {key : Key} {x : Schedule}
    (hc : Chronicle stores) (hs : s ∈ stores) (hx : s.objects.schedules[key]? = some x) :
    .schedule x ∈ s.objects := by
  have hget : s.objects.get? .schedule key = some (.schedule x) := by
    rw [Listing.get?_schedule, hx]
    rfl
  exact (hc.keyed hs).mem hget

theorem Lineage.stages {s : Store} {past : List Store} {r : Request} (hc : Chronicle (s :: past))
    (h : Lineage (s :: past)) (hr : r.Permitted (s :: past)) : Lineage (s.stages r ++ s :: past) := by
  have hs : s ∈ s :: past := List.mem_cons_self
  cases r with
  | createSchedule stamp x =>
    refine h.cons ?_
    obtain ⟨e, he⟩ | ⟨-, -, hok⟩ := Store.createSchedule_cases s stamp x
    · exact .of_sameData (by simp only [Store.serve, he]; exact Store.SameData.refl _)
    · refine .of_new (x := s.newSchedule stamp x) hr ?_
      simp only [Store.serve, hok]
      exact Store.SameData.refl _
  | updateSchedule x =>
    refine h.cons ?_
    obtain ⟨e, he⟩ | ⟨current, hget, -, hok⟩ := Store.updateSchedule_cases s x
    · exact .of_sameData (by simp only [Store.serve, he]; exact Store.SameData.refl _)
    · refine .of_edit (y := s.edited x current) (Store.mem_of_get? hc hs hget)
        ⟨rfl, rfl, rfl, NoLater.refl _⟩ ?_
      simp only [Store.serve, hok]
      exact Store.SameData.refl _
  | updateScheduleStatus x => exact hr.elim
  | deleteSchedule key propagation =>
    unfold Store.stages
    dsimp only
    split
    · exact h.cons (.of_sameData (Store.SameData.refl s))
    · rename_i x _
      have hgone : Lineage (s.commit .deleted (.schedule x) :: s :: past) :=
        h.cons (.of_deleted (Store.SameData.refl _))
      exact hgone.releases _ _ _
  | createWorkItem stamp w =>
    refine h.cons ?_
    obtain ⟨e, t, he, ht⟩ | ⟨-, t, hok, ht⟩ := Store.createWorkItem_cases s stamp w
    · exact .of_sameData (by simp only [Store.serve, he]; exact ht)
    · exact .of_workItem (by simp only [Store.serve, hok]; exact ht)
  | updateWorkItemStatus w =>
    refine h.cons ?_
    obtain ⟨e, t, he, ht⟩ | ⟨current, -, -, t, hok, ht⟩ := Store.updateWorkItemStatus_cases s w
    · exact .of_sameData (by simp only [Store.serve, he]; exact ht)
    · exact .of_workItem (by simp only [Store.serve, hok]; exact ht)
  | deleteWorkItem key =>
    refine h.cons ?_
    obtain ⟨e, t, he, ht⟩ | ⟨w, -, t, hok, ht⟩ := Store.deleteWorkItem_cases s key
    · exact .of_sameData (by simp only [Store.serve, he]; exact ht)
    · exact .of_deleted (by simp only [Store.serve, hok]; exact ht)
  | setFaults faults => exact h.cons (.of_sameData ⟨rfl, rfl, rfl⟩)

end Timetable
