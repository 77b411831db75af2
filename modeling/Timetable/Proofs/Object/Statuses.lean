import Mathlib.Data.List.Perm.Basic
import Mathlib.Order.Bounds.Basic
import Timetable.Proofs.Object.Children

/-!
# The status of a schedule does not depend on the order of its children

The last launch is the greatest of some times, and references that are sorted stand in one way only. So children in
another order imply the same status, and a status that they imply is implied again.
-/

namespace Timetable

namespace ObjectReference

lemma compare_def (a b : ObjectReference) :
    compare a b = (compare a.kind b.kind).then ((compare a.space b.space).then
      ((compare a.name b.name).then (compare a.uid b.uid))) := rfl

lemma eq_of_compare {a b : ObjectReference} (h : compare a b = .eq) : a = b := by
  simp only [compare_def, Ordering.then_eq_eq, Std.LawfulEqOrd.compare_eq_iff_eq] at h
  cases a
  cases b
  simp_all

lemma isLE_antisymm {a b : ObjectReference} (hab : (compare a b).isLE) (hba : (compare b a).isLE) : a = b :=
  eq_of_compare (Std.OrientedCmp.isLE_antisymm hab hba)

lemma isLE_total (a b : ObjectReference) : ((compare a b).isLE || (compare b a).isLE) = true := by
  have hswap : compare b a = (compare a b).swap := Std.OrientedCmp.eq_swap
  rw [hswap]
  cases compare a b <;> rfl

end ObjectReference

/-! ## Buckets -/

/-- Each item is in one bucket, that of its phase, and the order is kept. -/
structure Buckets.Sort (b : Buckets) (items : List WorkItem) : Prop where
  perm : (b.active ++ (b.succeeded ++ b.failed)).Perm items
  ordered : b.active.Sublist items ∧ b.succeeded.Sublist items ∧ b.failed.Sublist items
  active : ∀ w ∈ b.active, w.status.phase = .pending ∨ w.status.phase = .running
  succeeded : ∀ w ∈ b.succeeded, w.status.phase = .succeeded
  failed : ∀ w ∈ b.failed, w.status.phase = .failed

/-- Items of two kinds are all items of which one or the other holds. -/
lemma filter_append_filter_perm {α : Type} {p q r : α → Bool} (hor : ∀ a, r a = (p a || q a))
    (hnot : ∀ a, p a → q a = false) (items : List α) :
    (items.filter p ++ items.filter q).Perm (items.filter r) := by
  have hsplit := List.filter_append_perm p (items.filter r)
  have hp : (items.filter r).filter p = items.filter p := by
    rw [List.filter_filter]
    refine List.filter_congr fun a _ => ?_
    cases h : p a <;> simp [hor, h]
  have hq : (items.filter r).filter (fun a => !p a) = items.filter q := by
    rw [List.filter_filter]
    refine List.filter_congr fun a _ => ?_
    cases h : p a
    · simp [hor, h]
    · simp [hnot a h]
  rwa [hp, hq] at hsplit

theorem Buckets.sort_ofItems (items : List WorkItem) : (ofItems items).Sort items where
  perm := by
    have hended := filter_append_filter_perm (p := fun w : WorkItem => w.status.phase == .succeeded)
      (q := fun w => w.status.phase == .failed) (r := fun w => w.status.phase.isTerminal)
      (fun w => by cases w.status.phase <;> rfl) (fun w h => by simp [eq_of_beq h]) items
    have hall := List.filter_append_perm (fun w : WorkItem => w.status.phase.isTerminal) items
    exact ((hended.append_left _).trans List.perm_append_comm).trans hall
  ordered := ⟨List.filter_sublist, List.filter_sublist, List.filter_sublist⟩
  active w hw := by
    have hphase := (List.mem_filter.1 hw).2
    cases h : w.status.phase <;> simp_all [Phase.isTerminal]
  succeeded w hw := eq_of_beq (List.mem_filter.1 hw).2
  failed w hw := eq_of_beq (List.mem_filter.1 hw).2

/-! ## Statuses -/

namespace Schedule
variable {s : Schedule} {children others : List WorkItem}

/-- The times that the last launch covers: the creation, the recorded last launch, and the readable fires of children
in any phase. -/
def launchTimes (s : Schedule) (children : List WorkItem) : Set Instant :=
  {t | t = s.metadata.created ∨ s.status.lastScheduled = some t ∨ ∃ w ∈ children, w.scheduledTime = .ok t}

theorem isGreatest_lastScheduled (s : Schedule) (children : List WorkItem) :
    ∃ last, (s.desiredStatus children).lastScheduled = some last ∧ IsGreatest (s.launchTimes children) last := by
  obtain ⟨last, hlast, hcreated, hrecorded, hfires⟩ := s.desiredStatus_lastScheduled children
  refine ⟨last, hlast, desiredStatus_lastScheduled_mem hlast, ?_⟩
  rintro t (rfl | ht | ⟨w, hw, ht⟩)
  · exact hcreated
  · exact hrecorded t ht
  · exact hfires w hw t ht

lemma pairwise_active (s : Schedule) (children : List WorkItem) :
    (s.desiredStatus children).active.Pairwise fun a b => (compare a b).isLE :=
  List.pairwise_mergeSort (fun _ _ _ => Std.TransCmp.isLE_trans) ObjectReference.isLE_total _

lemma active_perm (s : Schedule) (children : List WorkItem) :
    (s.desiredStatus children).active.Perm ((Buckets.ofItems children).active.map WorkItem.reference) :=
  List.mergeSort_perm _ _

theorem desiredStatus_perm (s : Schedule) (h : others.Perm children) :
    s.desiredStatus others = s.desiredStatus children := by
  have htimes : s.launchTimes others = s.launchTimes children := by
    unfold launchTimes
    simp only [h.mem_iff]
  obtain ⟨last, hlast, hgreatest⟩ := s.isGreatest_lastScheduled children
  obtain ⟨last', hlast', hgreatest'⟩ := s.isGreatest_lastScheduled others
  rw [htimes] at hgreatest'
  rw [hgreatest'.unique hgreatest, ← hlast] at hlast'
  have hbuckets : (Buckets.ofItems others).active.Perm (Buckets.ofItems children).active := h.filter _
  have hactive : (s.desiredStatus others).active = (s.desiredStatus children).active := by
    apply List.Perm.eq_of_pairwise (fun _ _ _ _ => ObjectReference.isLE_antisymm) (s.pairwise_active others)
      (s.pairwise_active children)
    exact ((s.active_perm others).trans (hbuckets.map _)).trans (s.active_perm children).symm
  generalize s.desiredStatus others = status at *
  cases status
  dsimp only at hlast' hactive
  rw [hlast', hactive]

/-- Children in any order imply the same status. Its last launch is the greatest of the times that it covers, its
references are sorted and are those of the pending and running children, and it is implied again once it is on the
schedule. Each child is in the one bucket of its phase, in order. -/
theorem desiredStatus_unordered (s : Schedule) (h : others.Perm children) :
    s.desiredStatus others = s.desiredStatus children ∧
    (∃ last, (s.desiredStatus children).lastScheduled = some last ∧ IsGreatest (s.launchTimes children) last) ∧
    (s.desiredStatus children).active.Pairwise (fun a b => (compare a b).isLE) ∧
    (s.desiredStatus children).active.Perm
      ((children.filter fun w => w.status.phase = .pending ∨ w.status.phase = .running).map WorkItem.reference) ∧
    { s with status := s.desiredStatus children }.desiredStatus children = s.desiredStatus children ∧
    (Buckets.ofItems children).Sort children := by
  refine ⟨s.desiredStatus_perm h, s.isGreatest_lastScheduled children, s.pairwise_active children, ?_,
    s.desiredStatus_idem children, Buckets.sort_ofItems children⟩
  have hactive : (Buckets.ofItems children).active =
      children.filter fun w => w.status.phase = .pending ∨ w.status.phase = .running :=
    List.filter_congr fun w _ => by cases w.status.phase <;> rfl
  rw [← hactive]
  exact s.active_perm children

/-- A schedule that launches a work item every night. -/
def nightly : Schedule where
  metadata := Meta.new "jobs" "nightly" ⟨.ofNat 1, .ofSecond 0⟩
  spec := ⟨"@daily", .allow, false, none, none, none, ⟨∅, ∅, .bool true⟩⟩
  status := .initial

def night (name : String) (uid : Nat) (phase : Phase) (fire : String) : WorkItem where
  metadata := { Meta.new "jobs" name ⟨.ofNat uid, .ofSecond 0⟩ with
    annotations := (∅ : Labels).insert WorkItem.scheduledAt fire }
  spec := .bool true
  status := ⟨phase, none, none⟩

def firstNight : WorkItem :=
  night "first" 2 .pending "1970-01-02T00:00:00Z"

def secondNight : WorkItem :=
  night "second" 3 .running "tomorrow"

/-- The last run has failed, and the fire of another one cannot be read. -/
def nights : List WorkItem :=
  [secondNight, night "third" 4 .failed "1970-01-03T00:00:00Z", firstNight]

/-- The status counts the failed run for the last launch and the unreadable one among the active. -/
theorem desiredStatus_unordered_nights :
    nights.reverse.Perm nights ∧ nightly.desiredStatus nights.reverse = nightly.desiredStatus nights ∧
    (nightly.desiredStatus nights).lastScheduled = some (.ofSecond 172800) ∧
    (nightly.desiredStatus nights).active = [firstNight.reference, secondNight.reference] ∧
    { nightly with status := nightly.desiredStatus nights }.desiredStatus nights = nightly.desiredStatus nights ∧
    (Buckets.ofItems nights).Sort nights := by
  have hlast : (nightly.desiredStatus nights).lastScheduled = some (.ofSecond 172800) := by decide +kernel
  obtain ⟨hsame, -, hsorted, hactive, hagain, hsort⟩ := nightly.desiredStatus_unordered nights.reverse_perm
  have hpair : (nightly.desiredStatus nights).active = [firstNight.reference, secondNight.reference] := by
    apply List.Perm.eq_of_pairwise (fun _ _ _ _ => ObjectReference.isLE_antisymm) hsorted
    · decide +kernel
    · exact hactive.trans (.swap _ _ _)
  exact ⟨nights.reverse_perm, hsame, hlast, hpair, hagain, hsort⟩

end Schedule

end Timetable
