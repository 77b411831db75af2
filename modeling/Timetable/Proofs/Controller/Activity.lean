import Mathlib.Data.Set.Subsingleton
import Timetable.Proofs.Controller.Effects
import Timetable.Proofs.Store.Keeping

/-!
# Active children

A work item is active while it is pending or running. Only the creation of a work item makes a further child of
an owner active: deletions take active children away, and no client sets a fault or touches the spec of a
schedule.
-/

namespace Timetable

namespace WorkItem

def Active (w : WorkItem) : Prop :=
  w.status.phase = .pending ∨ w.status.phase = .running

lemma active_iff {w : WorkItem} : w.Active ↔ w.status.phase.isTerminal = false := by
  unfold Active
  cases w.status.phase <;> simp [Phase.isTerminal]

end WorkItem

lemma Buckets.mem_active {w : WorkItem} {ws : List WorkItem} :
    w ∈ (ofItems ws).active ↔ w ∈ ws ∧ w.Active := by
  unfold ofItems
  rw [List.mem_filter, WorkItem.active_iff]
  simp

namespace Store
variable {owner : Meta} {policy : Concurrency} {s t : Store} {stamp : Stamp} {v w : WorkItem} {key : Key}

/-- The keys of the active work items that an owner controls. -/
def activeKeys (s : Store) (owner : Meta) : Set Key :=
  {key | ∃ w, .workItem w ∈ s.objects ∧ w.metadata.key = key ∧
    w.metadata.isControlledBy owner = true ∧ w.Active}

/-- Every child of an owner was there before, and was active before if it is active. -/
def Wanes (owner : Meta) (s t : Store) : Prop :=
  ∀ w, .workItem w ∈ t.objects → w.metadata.isControlledBy owner = true →
    ∃ v, .workItem v ∈ s.objects ∧ v.Copies w ∧ (w.Active → v.Active)

/-- The children of an owner are those that name it, and one at most is active. -/
structure Orderly (owner : Meta) (s : Store) : Prop where
  owned : ∀ w, .workItem w ∈ s.objects → w.metadata.isControlledBy owner = true →
    w.ownerKey = some owner.key
  single : (s.activeKeys owner).Subsingleton

/-- The schedules with the UID of an owner have a policy, and under `Replace` no deletion is made to fail. -/
structure Governed (owner : Meta) (policy : Concurrency) (s : Store) : Prop where
  specs : ∀ x, .schedule x ∈ s.objects → x.metadata.uid = owner.uid → x.spec.concurrency = policy
  deletes : policy = .replace → s.faults.deletes = none

/-! ## Fewer active children -/

lemma wanes_of_subset (h : ∀ w, .workItem w ∈ t.objects → .workItem w ∈ s.objects) : Wanes owner s t :=
  fun w hw _ => ⟨w, h w hw, WorkItem.Copies.refl w, id⟩

lemma SameData.wanes (h : SameData t s) : Wanes owner s t :=
  wanes_of_subset fun w hw => by rwa [← h.objects]

lemma Wanes.activeKeys_subset (h : Wanes owner s t) : t.activeKeys owner ⊆ s.activeKeys owner := by
  rintro key ⟨w, hw, hkey, hchild, hactive⟩
  obtain ⟨v, hv, hcopies, hbefore⟩ := h w hw hchild
  rw [hcopies.isControlledBy] at hchild
  exact ⟨v, hv, hcopies.key.symm.trans hkey, hchild, hbefore hactive⟩

lemma Orderly.wanes (h : s.Orderly owner) (hw : Wanes owner s t) : t.Orderly owner := by
  constructor
  · intro w hmem hchild
    obtain ⟨v, hv, hcopies, -⟩ := hw w hmem hchild
    rw [hcopies.isControlledBy] at hchild
    rw [hcopies.ownerKey]
    exact h.owned v hv hchild
  · exact h.single.anti hw.activeKeys_subset

/-! ## What calls do to children -/

lemma wanes_of_put_schedule {y : Schedule} (h : t.objects = s.objects.put (.schedule y)) :
    Wanes owner s t := by
  apply wanes_of_subset
  intro w hw
  rw [Listing.mem_workItem] at hw ⊢
  rwa [h] at hw

lemma deleteWorkItem_wanes (s : Store) (key : Key) : Wanes owner s (s.deleteWorkItem key).2 := by
  obtain ⟨e, t, he, ht⟩ | ⟨w, -, t, hok, ht⟩ := deleteWorkItem_cases s key
  · rw [he]
    exact ht.wanes
  · rw [hok]
    apply wanes_of_subset
    intro v hv
    rw [ht.objects] at hv
    exact Listing.mem_erase hv

/-- A deletion that no fault concerns leaves no active child under the key. -/
lemma notMem_activeKeys_deleteWorkItem (hfree : s.faults.deletes = none) (hkeyed : s.objects.Keyed)
    (key : Key) : key ∉ (s.deleteWorkItem key).2.activeKeys owner := by
  rintro ⟨w, hw, rfl, -⟩
  rw [(deleteWorkItem_calm hfree hkeyed _).1, Listing.mem_workItem, workItems_erase, if_pos rfl] at hw
  simp at hw

/-- The status of a work item is written only over the work item that was read. -/
theorem updateWorkItemStatus_of_read {stores : List Store} {next : WorkItem} (hc : Chronicle stores)
    (hs : s ∈ stores) (ht : t ∈ stores) (hv : .workItem v ∈ t.objects)
    (hmetadata : next.metadata = v.metadata) :
    (∃ e u, s.updateWorkItemStatus next = (.error e, u) ∧ SameData u s) ∨
      s.objects.workItems[v.metadata.key]? = some v ∧
      ∃ u, s.updateWorkItemStatus next = (.ok (s.withItemStatusOf next v), u) ∧
        SameData u (s.commit .modified (.workItem (s.withItemStatusOf next v))) := by
  obtain herror | ⟨current, hget, hversion, hok⟩ := updateWorkItemStatus_cases s next
  · exact Or.inl herror
  · have hstored : s.objects.workItems[current.metadata.key]? = some current := by
      rwa [(hc.keyed hs).workItem_key hget]
    rw [hmetadata] at hversion
    obtain rfl : current = v :=
      Object.workItem.inj (hc.mem_eq hs ht (Listing.mem_workItem.2 hstored) hv hversion)
    exact Or.inr ⟨hstored, hok⟩

lemma updateWorkItemStatus_wanes {stores : List Store} {next : WorkItem} (hc : Chronicle stores)
    (hs : s ∈ stores) (ht : t ∈ stores) (hv : .workItem v ∈ t.objects)
    (hmetadata : next.metadata = v.metadata) (hactive : next.Active → v.Active) :
    Wanes owner s (s.updateWorkItemStatus next).2 := by
  obtain ⟨e, u, he, hu⟩ | ⟨hstored, u, hok, hu⟩ := updateWorkItemStatus_of_read hc hs ht hv hmetadata
  · rw [he]
    exact hu.wanes
  · have hput : u.objects = s.objects.put (.workItem (s.withItemStatusOf next v)) := hu.objects
    rw [hok]
    intro w hw hchild
    rw [hput] at hw
    obtain heq | hold := Listing.mem_put hw
    · obtain rfl := Object.workItem.inj heq
      exact ⟨v, Listing.mem_workItem.2 hstored, ⟨rfl, rfl, rfl⟩, hactive⟩
    · exact ⟨w, hold, WorkItem.Copies.refl w, id⟩

/-- Where no child is active, one may be created. -/
lemma Orderly.createWorkItem (h : s.Orderly owner) (hnone : s.activeKeys owner ⊆ ∅)
    (hchild : w.ownerKey = some owner.key) (stamp : Stamp) :
    (s.createWorkItem stamp w).2.Orderly owner := by
  obtain ⟨e, t, he, ht⟩ | ⟨-, t, hok, ht⟩ := createWorkItem_cases s stamp w
  · rw [he]
    exact h.wanes ht.wanes
  · have hcopies : w.Copies (s.newWorkItem stamp w) := ⟨rfl, rfl, rfl⟩
    have hput : t.objects = s.objects.put (.workItem (s.newWorkItem stamp w)) := ht.objects
    have hmem : ∀ v, .workItem v ∈ t.objects → v = s.newWorkItem stamp w ∨ .workItem v ∈ s.objects := by
      intro v hv
      rw [hput] at hv
      exact (Listing.mem_put hv).imp_left Object.workItem.inj
    rw [hok]
    constructor
    · intro v hv hcontrolled
      obtain rfl | hold := hmem v hv
      · rw [hcopies.ownerKey, hchild]
      · exact h.owned v hold hcontrolled
    · apply Set.subsingleton_singleton.anti (t := {w.metadata.key})
      rintro key ⟨v, hv, rfl, hcontrolled, hactive⟩
      obtain rfl | hold := hmem v hv
      · exact hcopies.key
      · exact (hnone ⟨v, hold, rfl, hcontrolled, hactive⟩).elim

/-! ## What calls leave alone -/

lemma updateScheduleStatus_deletes (s : Store) (x : Schedule) :
    (s.updateScheduleStatus x).2.faults.deletes = s.faults.deletes := by
  rw [updateScheduleStatus_eq]
  cases s.faults.nextStatusUpdate with
  | some e => rfl
  | none =>
    obtain ⟨e, he⟩ | ⟨current, -, -, hok⟩ := editSchedule_cases (s.refuse (.updateScheduleStatus x))
      x.metadata.key x.metadata.version fun current => { current with status := x.status }
    · simp only [he]
      rfl
    · simp only [hok]
      rfl

lemma updateWorkItemStatus_deletes (s : Store) (w : WorkItem) :
    (s.updateWorkItemStatus w).2.faults.deletes = s.faults.deletes := by
  rw [updateWorkItemStatus_eq]
  cases s.faults.nextStatusUpdate with
  | some e => rfl
  | none =>
    obtain ⟨e, he⟩ | ⟨current, -, -, hok⟩ := editWorkItem_cases (s.refuse (.updateWorkItemStatus w))
      w.metadata.key w.metadata.version fun current => { current with status := w.status }
    · simp only [he]
      rfl
    · simp only [hok]
      rfl

lemma createWorkItem_deletes (s : Store) (stamp : Stamp) (w : WorkItem) :
    (s.createWorkItem stamp w).2.faults.deletes = s.faults.deletes := by
  unfold createWorkItem
  dsimp only
  split
  · rfl
  · obtain ⟨e, he⟩ | ⟨-, -, hok⟩ := insertNew_cases
      { s with calls := { s.calls with creates := s.calls.creates + 1 } } stamp (.workItem w)
    · rw [he]
    · rw [hok]
      rfl

lemma deleteWorkItem_deletes (s : Store) (key : Key) :
    (s.deleteWorkItem key).2.faults.deletes = s.faults.deletes := by
  unfold deleteWorkItem removeWorkItem
  dsimp only
  split
  · rfl
  · split
    · rfl
    · rfl

lemma Governed.of_schedules (h : s.Governed owner policy)
    (hschedules : t.objects.schedules = s.objects.schedules) (hdeletes : t.faults.deletes = s.faults.deletes) :
    t.Governed owner policy := by
  constructor
  · intro x hx
    rw [Listing.mem_schedule, hschedules, ← Listing.mem_schedule] at hx
    exact h.specs x hx
  · rw [hdeletes]
    exact h.deletes

lemma Governed.updateScheduleStatus (h : s.Governed owner policy) (hkeyed : s.objects.Keyed)
    (x : Schedule) : (s.updateScheduleStatus x).2.Governed owner policy := by
  have hdeletes := updateScheduleStatus_deletes s x
  obtain ⟨e, t, he, ht⟩ | ⟨current, hget, -, t, hok, ht⟩ := updateScheduleStatus_cases s x
  · rw [he] at hdeletes ⊢
    exact h.of_schedules (congrArg Listing.schedules ht.objects) hdeletes
  · have hput : t.objects = s.objects.put (.schedule (s.withStatusOf x current)) := ht.objects
    rw [hok] at hdeletes ⊢
    constructor
    · intro y hy huid
      rw [hput] at hy
      obtain heq | hold := Listing.mem_put hy
      · obtain rfl := Object.schedule.inj heq
        have hcurrent : .schedule current ∈ s.objects := by
          rwa [Listing.mem_schedule, hkeyed.schedule_key hget]
        exact h.specs current hcurrent huid
      · exact h.specs y hold huid
    · rw [hdeletes]
      exact h.deletes

/-- No client edits specs or makes deletions fail. -/
theorem Governed.step {α : Type} {site : Site} (h : site.store.Governed owner policy)
    (hkeyed : site.store.objects.Keyed) (c : Client α) (stamp : Stamp) :
    (c.step stamp site).2.store.Governed owner policy := by
  cases c with
  | writeScheduleStatus x next => exact h.updateScheduleStatus hkeyed x
  | createItem w next =>
    refine h.of_schedules ?_ (createWorkItem_deletes _ stamp w)
    obtain ⟨e, t, he, ht⟩ | ⟨-, t, hok, ht⟩ := createWorkItem_cases site.store stamp w
    · simp only [Client.step, he, ht.objects]
    · simp only [Client.step, hok, ht.objects]
      rfl
  | writeItemStatus w next =>
    refine h.of_schedules ?_ (updateWorkItemStatus_deletes _ w)
    obtain ⟨e, t, he, ht⟩ | ⟨current, -, -, t, hok, ht⟩ := updateWorkItemStatus_cases site.store w
    · simp only [Client.step, he, ht.objects]
    · simp only [Client.step, hok, ht.objects]
      rfl
  | deleteItem key next =>
    refine h.of_schedules ?_ (deleteWorkItem_deletes _ key)
    obtain ⟨e, t, he, ht⟩ | ⟨w, -, t, hok, ht⟩ := deleteWorkItem_cases site.store key
    · simp only [Client.step, he, ht.objects]
    · simp only [Client.step, hok, ht.objects]
      rfl
  | _ => exact h

end Store

end Timetable
