import Timetable.Controller.Pool
import Timetable.Proofs.Replica.Reflection

/-!
# Replicas that are up to date

A replica that holds what its store holds shows a schedule with all the work items that it controls there.
What it shows depends on nothing else.
-/

namespace Timetable

/-- A replica holds what a store holds. -/
structure Replica.Current (r : Replica) (s : Store) : Prop where
  objects : r.objects = s.objects
  indexed : r.Indexed

/-- A view is all that a listing has of the schedule under a key and of its children. -/
structure View.Shows (l : Listing) (key : Key) (view : View) : Prop where
  schedule : l.schedules[key]? = some view.schedule
  children : ∀ w, w ∈ view.children ↔ l.workItems[w.metadata.key]? = some w ∧
    w.ownerKey = some key ∧ w.metadata.isControlledBy view.schedule.metadata = true
  nodup : (view.children.map (·.metadata.key)).Nodup

namespace Replica
variable {r m : Replica} {s : Store} {l : Listing} {key owner : Key} {view : View}

lemma childKeys_eq (r : Replica) (owner : Key) : r.childKeys owner = (r.childSet owner).toList := by
  unfold childKeys childSet
  cases r.children[owner]? with
  | none => simp
  | some keys => rfl

lemma nodup_childrenOf (hkeyed : r.objects.Keyed) (owner : Key) :
    ((r.childrenOf owner).map (·.metadata.key)).Nodup := by
  have hkeys : (r.childKeys owner).Nodup := by
    rw [childKeys_eq]
    apply Std.ExtTreeSet.distinct_toList.imp
    intro a b hne hab
    exact hne (Std.LawfulEqOrd.compare_eq_iff_eq.2 hab)
  have hown : (r.childrenOf owner).map (·.metadata.key) =
      (r.childKeys owner).filter fun key => r.objects.workItems[key]?.isSome := by
    unfold childrenOf
    rw [List.map_filterMap, ← List.filterMap_eq_filter]
    apply List.filterMap_congr
    intro key _
    cases hget : r.objects.workItems[key]? with
    | none => simp [Option.guard, hget]
    | some w =>
      have hkey := hkeyed.workItem_key hget
      simp [Option.guard, hget, hkey]
  rw [hown]
  exact hkeys.filter _

/-- Work items alone tell the children. -/
lemma Indexed.childrenOf_eq (h : r.Indexed) (h' : m.Indexed)
    (hitems : r.objects.workItems = m.objects.workItems) (owner : Key) :
    r.childrenOf owner = m.childrenOf owner := by
  have hsets : r.childSet owner = m.childSet owner := by
    apply Std.ExtTreeSet.ext_mem
    intro key
    rw [h.linked, h'.linked, h.owners, h'.owners, hitems]
  unfold childrenOf
  rw [childKeys_eq, childKeys_eq, hsets, hitems]

namespace Current

lemma view?_eq_none (h : r.Current s) (hnone : s.objects.schedules[key]? = none) :
    r.view? key = none := by
  unfold view?
  rw [h.objects, hnone]
  rfl

lemma exists_view (h : r.Current s) {x : Schedule} (hx : s.objects.schedules[key]? = some x) :
    ∃ view, r.view? key = some view ∧ view.schedule = x := by
  unfold view?
  rw [h.objects, hx]
  exact ⟨_, rfl, rfl⟩

/-- What an up-to-date replica shows is all that there is. -/
theorem shows (h : r.Current s) (hkeyed : s.objects.Keyed) (hview : r.view? key = some view) :
    view.Shows s.objects key := by
  unfold view? at hview
  rw [h.objects] at hview
  obtain ⟨x, hx, rfl⟩ := Option.map_eq_some_iff.1 hview
  have hkey := hkeyed.schedule_key hx
  constructor
  · exact hx
  · intro w
    rw [List.mem_filter, h.indexed.mem_childrenOf, hkey, h.objects]
    constructor
    · rintro ⟨⟨child, hchild, howner⟩, hcontrolled⟩
      rw [hkeyed.workItem_key hchild]
      exact ⟨hchild, howner, hcontrolled⟩
    · rintro ⟨hchild, howner, hcontrolled⟩
      exact ⟨⟨w.metadata.key, hchild, howner⟩, hcontrolled⟩
  · rw [← h.objects] at hkeyed
    exact (nodup_childrenOf hkeyed _).sublist (List.filter_sublist.map _)

/-- Two up-to-date replicas show the same children if nothing happened to work items. -/
lemma children_eq {t : Store} {view' : View} (h : r.Current s) (h' : m.Current t)
    (hitems : s.objects.workItems = t.objects.workItems)
    (hview : r.view? key = some view) (hview' : m.view? key = some view')
    (hkey : view.schedule.metadata.key = view'.schedule.metadata.key)
    (huid : view.schedule.metadata.uid = view'.schedule.metadata.uid) :
    view.children = view'.children := by
  obtain ⟨x, -, rfl⟩ := Option.map_eq_some_iff.1 hview
  obtain ⟨y, -, rfl⟩ := Option.map_eq_some_iff.1 hview'
  dsimp only at hkey huid ⊢
  have hspace : x.metadata.space = y.metadata.space := congrArg Key.space hkey
  have hsame : r.objects.workItems = m.objects.workItems := by
    rw [h.objects, h'.objects, hitems]
  rw [h.indexed.childrenOf_eq h'.indexed hsame, hkey]
  apply List.filter_congr
  intro w _
  unfold Meta.isControlledBy
  rw [huid, hspace]

end Current

/-- A listing makes a new replica current. -/
lemma current_of_listing {past : List Store} (hc : Chronicle (s :: past)) :
    (empty.replace s.objects.toList s.version).1.Current s := by
  have hs : s ∈ s :: past := List.mem_cons_self
  constructor
  · apply replace_objects Listing.keyed_empty (hc.keyed hs)
    intro o ho p hp hversion
    obtain hp | hp := hp
    · rw [Listing.mem_def] at hp
      simp [empty] at hp
    · exact hc.mem_eq hs hs hp ho hversion
  · exact indexed_empty.replace _ _

end Replica

/-- A reflector that has seen the version of its store keeps a current replica. -/
lemma Mirroring.current {c : Mirroring} (h : Reachable c)
    (hseen : c.reflector.replica.lastSeen = c.store.version) :
    c.reflector.replica.Current c.store := by
  obtain ⟨hc, hf⟩ := faithful_of_reachable h
  obtain ⟨t, ht, hversion, hobjects⟩ := hf.past
  refine ⟨?_, hf.indexed⟩
  rw [← hobjects]
  exact hc.objects_eq ht List.mem_cons_self (hversion.trans hseen)

end Timetable
