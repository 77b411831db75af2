import Timetable.Proofs.Store.Atomicity
import Timetable.Proofs.Store.Keeping

/-!
# Deleted schedules

When a schedule is deleted, its children are deleted too or are freed from it, one after the other. None of them can
stop the rest: each is still stored as it was read when its turn comes. So a deletion either finds no schedule or makes
one change for the schedule and one for each of its children, and touches nothing else.
-/

namespace Timetable

namespace Meta
variable {m owner : Meta}

/-- The object is in the owner's namespace, and its first controller reference carries the owner's UID. -/
def ManagedBy (m owner : Meta) : Prop :=
  m.space = owner.space ∧ ∃ before r after, m.owners = before ++ r :: after ∧
    (∀ x ∈ before, x.controller = false) ∧ r.controller = true ∧ r.uid = owner.uid

theorem isControlledBy_iff : m.isControlledBy owner = true ↔ m.ManagedBy owner := by
  unfold isControlledBy
  simp only [Option.any_eq_true, Bool.and_eq_true, beq_iff_eq]
  constructor
  · rintro ⟨r, hr, huid, hspace⟩
    obtain ⟨hcontroller, before, after, howners, hbefore⟩ := controller?_eq_some_iff.1 hr
    exact ⟨hspace, before, r, after, howners, hbefore, hcontroller, huid⟩
  · rintro ⟨hspace, before, r, after, howners, hbefore, hcontroller, huid⟩
    exact ⟨r, controller?_eq_some_iff.2 ⟨hcontroller, before, after, howners, hbefore⟩, huid, hspace⟩

end Meta

/-- A work item with a new version and without the references to an owner. -/
def WorkItem.freed (w : WorkItem) (owner : Meta) (version : Nat) : WorkItem :=
  { w with metadata := { w.metadata with owners := w.metadata.owners.filter fun r => r.uid != owner.uid, version } }

namespace Propagation
variable {propagation : Propagation} {owner : Meta} {v : Nat} {w : WorkItem} {ws : List WorkItem} {key : Key}
  {l : Listing}

/-- The change that a child sees. -/
def change (propagation : Propagation) (owner : Meta) (version : Nat) (w : WorkItem) : Change :=
  match propagation with
  | .background => ⟨.deleted, .workItem { w with metadata := { w.metadata with version } }⟩
  | .orphan => ⟨.modified, .workItem (w.freed owner version)⟩

/-- The changes that children see one after the other, after the version `v`. -/
def changes (propagation : Propagation) (owner : Meta) (v : Nat) (ws : List WorkItem) : List Change :=
  ws.mapIdx fun i w => propagation.change owner (v + 1 + i) w

/-- What is stored of a child afterwards. -/
def left (propagation : Propagation) (owner : Meta) (version : Nat) (w : WorkItem) : Option WorkItem :=
  match propagation with
  | .background => none
  | .orphan => some (w.freed owner version)

lemma changes_cons (propagation : Propagation) (owner : Meta) (v : Nat) (w : WorkItem) (ws : List WorkItem) :
    propagation.changes owner v (w :: ws) =
      propagation.change owner (v + 1) w :: propagation.changes owner (v + 1) ws := by
  unfold changes
  rw [List.mapIdx_cons]
  congr 2
  funext i w
  rw [Nat.add_right_comm (v + 1) 1 i]
  rfl

lemma schedules_change : (l.apply (propagation.change owner v w)).schedules = l.schedules := by
  cases propagation <;> rfl

lemma workItems_change : (l.apply (propagation.change owner v w)).workItems[key]? =
    if w.metadata.key = key then propagation.left owner v w else l.workItems[key]? := by
  cases propagation with
  | background => exact KeyMap.getElem?_erase _ _ _
  | orphan => exact KeyMap.getElem?_insert _ _ _ _

/-! ## All children -/

lemma schedules_changes : ((propagation.changes owner v ws).foldl Listing.apply l).schedules = l.schedules := by
  induction ws generalizing v l with
  | nil => rfl
  | cons w ws ih =>
    rw [changes_cons, List.foldl_cons, ih, schedules_change]

/-- What is not a child is left alone. -/
lemma workItems_changes_of_other (hother : ∀ w ∈ ws, w.metadata.key ≠ key) :
    ((propagation.changes owner v ws).foldl Listing.apply l).workItems[key]? = l.workItems[key]? := by
  induction ws generalizing v l with
  | nil => rfl
  | cons w ws ih =>
    rw [List.forall_mem_cons] at hother
    rw [changes_cons, List.foldl_cons, ih hother.2, workItems_change, if_neg hother.1]

/-- A child sees its own change only. -/
lemma workItems_changes (hkeys : (ws.map (·.metadata.key)).Nodup) {i : Nat} (hw : ws[i]? = some w) :
    ((propagation.changes owner v ws).foldl Listing.apply l).workItems[w.metadata.key]? =
      propagation.left owner (v + 1 + i) w := by
  induction ws generalizing v l i with
  | nil => simp at hw
  | cons first ws ih =>
    rw [List.map_cons, List.nodup_cons] at hkeys
    rw [changes_cons, List.foldl_cons]
    cases i with
    | zero =>
      obtain rfl : first = w := by simpa using hw
      have hother : ∀ w ∈ ws, w.metadata.key ≠ first.metadata.key := fun w hw hkey =>
        hkeys.1 (hkey ▸ List.mem_map_of_mem hw)
      rw [workItems_changes_of_other hother, workItems_change, if_pos rfl]
    | succ i =>
      rw [ih hkeys.2 (by simpa using hw), Nat.add_right_comm (v + 1) 1 i]
      rfl

end Propagation

namespace Store
variable {s t : Store} {propagation : Propagation} {owner : Meta} {past : List Store} {ws : List WorkItem}

lemma release_eq (propagation : Propagation) (owner : Meta) (s : Store) (w : WorkItem) :
    release propagation owner s w =
      let c := propagation.change owner (s.version + 1) w
      { s with objects := s.objects.apply c, version := s.version + 1, history := remember s.history c } := by
  cases propagation <;> rfl

/-- Dismissing children commits their changes. -/
lemma foldl_release (propagation : Propagation) (owner : Meta) (s : Store) (ws : List WorkItem) :
    ws.foldl (release propagation owner) s =
      let cs := propagation.changes owner s.version ws
      { s with
        objects := cs.foldl Listing.apply s.objects
        version := s.version + ws.length
        history := cs.foldl remember s.history } := by
  induction ws generalizing s with
  | nil => rfl
  | cons w ws ih =>
    rw [List.foldl_cons, ih, release_eq, Propagation.changes_cons]
    simp only [List.foldl_cons, List.length_cons]
    rw [Nat.add_assoc, Nat.add_comm 1]

lemma journal_releases (propagation : Propagation) (owner : Meta) (s : Store) (past : List Store)
    (ws : List WorkItem) :
    journal (releases propagation owner s ws ++ past) =
      journal (s :: past) ++ propagation.changes owner s.version ws := by
  induction ws generalizing s past with
  | nil => simp [releases, Propagation.changes]
  | cons w ws ih =>
    have hversion : (release propagation owner s w).version = s.version + 1 := by rw [release_eq]
    have hhistory : (release propagation owner s w).history =
        remember s.history (propagation.change owner (s.version + 1) w) := by rw [release_eq]
    have hmade := made_of_remember hversion hhistory
    rw [releases, List.append_assoc, List.singleton_append, ih, journal_cons, hmade, hversion,
      Propagation.changes_cons, List.append_assoc]
    rfl

/-- The changes of a deletion after the version `v`: the schedule's, then one for each child. -/
def deletionChanges (propagation : Propagation) (x : Schedule) (children : List WorkItem) (v : Nat) : List Change :=
  ⟨.deleted, .schedule { x with metadata := { x.metadata with version := v + 1 } }⟩ ::
    propagation.changes x.metadata (v + 1) children

/-- What the deletion of a schedule with these children makes of a store. -/
structure Deletion (propagation : Propagation) (x : Schedule) (children : List WorkItem) (s t : Store) : Prop where
  schedules (key : Key) : t.objects.schedules[key]? =
    if x.metadata.key = key then none else s.objects.schedules[key]?
  /-- Each child is gone, or is stored without the references to the schedule. -/
  child (i : Nat) (w : WorkItem) : children[i]? = some w →
    t.objects.workItems[w.metadata.key]? = propagation.left x.metadata (s.version + 2 + i) w
  other (key : Key) : (∀ w ∈ children, w.metadata.key ≠ key) →
    t.objects.workItems[key]? = s.objects.workItems[key]?
  version : t.version = s.version + 1 + children.length
  history : t.history = (deletionChanges propagation x children s.version).foldl remember s.history
  faults : t.faults = s.faults
  calls : t.calls = s.calls

lemma deletion_foldl (propagation : Propagation) (s : Store) (x : Schedule) {children : List WorkItem}
    (hkeys : (children.map (·.metadata.key)).Nodup) :
    Deletion propagation x children s
      (children.foldl (release propagation x.metadata) (s.commit .deleted (.schedule x))) := by
  rw [foldl_release]
  constructor
  · intro key
    exact (congrArg (·[key]?) Propagation.schedules_changes).trans (KeyMap.getElem?_erase _ _ _)
  · intro i w hw
    exact Propagation.workItems_changes hkeys hw
  · intro key hother
    exact Propagation.workItems_changes_of_other hother
  · rfl
  · dsimp only
    rw [commit_history, deletionChanges, List.foldl_cons]
    rfl
  · rfl
  · rfl

end Store

/-- Deleting a schedule finds none and changes nothing, or succeeds whatever its children are. Then the schedule is
gone, and exactly the work items that it manages, in key order, are deleted or freed from it; each change is made known
in this order. -/
theorem Served.deletion_is_whole {s : Store} {past : List Store} (h : Served (s :: past)) (key : Key)
    (propagation : Propagation) :
    (s.objects.schedules[key]? = none ∧
      s.deleteSchedule key propagation = (.error (.notFound Kind.schedule.name key), s)) ∨
    ∃ x children t, s.objects.schedules[key]? = some x ∧ x.metadata.key = key ∧
      s.deleteSchedule key propagation = (.ok (), t) ∧
      (∀ w, w ∈ children ↔ s.objects.workItems[w.metadata.key]? = some w ∧ w.metadata.ManagedBy x.metadata) ∧
      children.Pairwise (fun v w => compare v.metadata.key w.metadata.key = .lt) ∧
      Store.Deletion propagation x children s t ∧
      journal (s.stages (.deleteSchedule key propagation) ++ s :: past) =
        journal (s :: past) ++ Store.deletionChanges propagation x children s.version := by
  have hkeyed : s.objects.Keyed := h.chronicle.keyed List.mem_cons_self
  have hdelete := Store.deleteSchedule_eq hkeyed key propagation
  cases hx : s.objects.schedules[key]? with
  | none =>
    rw [hx] at hdelete
    exact Or.inl ⟨rfl, hdelete⟩
  | some x =>
    let gone := s.commit .deleted (.schedule x)
    let children := s.objects.items.filter fun w => w.metadata.isControlledBy x.metadata
    have hitems : gone.objects.items = s.objects.items := rfl
    rw [hx] at hdelete
    refine Or.inr ⟨x, children, _, rfl, hkeyed.schedule_key hx, hdelete, fun w => ?_, ?_, ?_, ?_⟩
    · rw [List.mem_filter, hkeyed.mem_items, Meta.isControlledBy_iff]
    · exact hkeyed.pairwise_items.sublist List.filter_sublist
    · exact Store.deletion_foldl propagation s x (hkeyed.nodup_items.sublist (List.filter_sublist.map _))
    · have hmade : s.made gone = some ⟨.deleted, (Object.schedule x).withVersion (s.version + 1)⟩ :=
        Store.made_of_remember (Store.commit_version _ _ _) (Store.commit_history _ _ _)
      have hstages : s.stages (.deleteSchedule key propagation) =
          Store.releases propagation x.metadata gone children := by
        simp only [Store.stages, hx]
        rfl
      rw [hstages, Store.journal_releases, journal_cons, hmade, List.append_assoc]
      rfl

/-! ## A child and a stranger -/

namespace Store

def tickReference (uid : Nat) (controller : Bool) : OwnerReference :=
  ⟨Kind.schedule.name, "tick", .ofNat uid, controller⟩

def ownedItem (name : String) (owners : List OwnerReference) (uid version : Nat) : WorkItem where
  metadata := { Meta.new "jobs" name ⟨.ofNat uid, .ofSecond 0⟩ with owners, version }
  spec := .bool true
  status := .initial

/-- A child of the schedule with UID 1 that refers to another owner too. -/
def familyChild : WorkItem :=
  ownedItem "tick-60" [tickReference 7 false, tickReference 1 true] 2 2

/-- An item that refers to the schedule with UID 1, but after its controller. -/
def familyGuest : WorkItem :=
  ownedItem "tick-120" [tickReference 7 true, tickReference 1 true] 3 3

def family : Store :=
  let alone := empty.serve (.createSchedule ⟨.ofNat 1, .ofSecond 0⟩ .minutely)
  (alone.serve (.createWorkItem ⟨.ofNat 2, .ofSecond 0⟩ familyChild)).serve
    (.createWorkItem ⟨.ofNat 3, .ofSecond 0⟩ familyGuest)

lemma served_family : ∃ past, Served (family :: past) := by
  have halone : Served (_ :: [.empty]) := .serve (.createSchedule ⟨.ofNat 1, .ofSecond 0⟩ .minutely) .start
  have hchild := halone.request (.createWorkItem ⟨.ofNat 2, .ofSecond 0⟩ familyChild)
  exact ⟨_, hchild.request (.createWorkItem ⟨.ofNat 3, .ofSecond 0⟩ familyGuest)⟩

end Store

/-- The child keeps its other reference only, and the guest stays as it is. -/
theorem Served.deletion_is_whole_family :
    (∃ past, Served (Store.family :: past)) ∧
    ∃ t v, Store.family.deleteSchedule Schedule.minutely.metadata.key .orphan = (.ok (), t) ∧
      t.objects.workItems[Store.familyChild.metadata.key]? =
        some (Store.ownedItem "tick-60" [Store.tickReference 7 false] 2 v) ∧
      t.objects.workItems[Store.familyGuest.metadata.key]? = some Store.familyGuest := by
  obtain ⟨past, hserved⟩ := Store.served_family
  refine ⟨⟨past, hserved⟩, ?_⟩
  have hchild : Store.family.objects.workItems[Store.familyChild.metadata.key]? = some Store.familyChild := by
    decide +kernel
  have hguest : Store.family.objects.workItems[Store.familyGuest.metadata.key]? = some Store.familyGuest := by
    decide +kernel
  have howner : Store.family.objects.schedules[Schedule.minutely.metadata.key]? = some (Store.lived 1 1) := by
    decide +kernel
  obtain ⟨hnone, -⟩ | ⟨x, children, t, hx, -, ht, hchildren, -, hdeletion, -⟩ :=
    Served.deletion_is_whole hserved Schedule.minutely.metadata.key .orphan
  · rw [howner] at hnone
    simp at hnone
  · obtain rfl := Option.some.inj (howner.symm.trans hx)
    have hmanaged : Store.familyChild.metadata.ManagedBy (Store.lived 1 1).metadata :=
      Meta.isControlledBy_iff.1 (by decide +kernel)
    obtain ⟨i, hi⟩ := List.mem_iff_getElem?.1 ((hchildren _).2 ⟨hchild, hmanaged⟩)
    refine ⟨t, Store.family.version + 2 + i, ht, hdeletion.child i _ hi, ?_⟩
    rw [hdeletion.other _ fun w hw hkey => ?_]
    · exact hguest
    · obtain ⟨hstored, hmanaged⟩ := (hchildren w).1 hw
      rw [hkey, hguest] at hstored
      rw [← Option.some.inj hstored, ← Meta.isControlledBy_iff] at hmanaged
      exact absurd hmanaged (by decide +kernel)

end Timetable
