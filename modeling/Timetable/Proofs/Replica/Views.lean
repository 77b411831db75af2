import Mathlib.Data.List.Nodup
import Timetable.Proofs.Replica.Current

/-!
# What an up-to-date replica shows

The children that a current replica shows of a schedule are the work items of its namespace whose controller is the
schedule, by kind, name and UID, in key order.
-/

namespace Timetable

def WorkItem.isChildOf (w : WorkItem) (s : Schedule) : Bool :=
  w.metadata.space == s.metadata.space && w.metadata.controller?.any fun r =>
    r.kind == Kind.schedule.name && r.name == s.metadata.name && r.uid == s.metadata.uid

lemma WorkItem.isChildOf_iff {w : WorkItem} {s : Schedule} :
    w.isChildOf s = true ↔ w.ownerKey = some s.metadata.key ∧ w.metadata.isControlledBy s.metadata = true := by
  unfold isChildOf ownerKey Meta.isControlledBy Meta.key
  cases w.metadata.controller? with
  | none => simp
  | some r =>
    by_cases hkind : r.kind = Kind.schedule.name
    · simp [hkind]
      tauto
    · simp [hkind, Option.filter]

namespace Listing

/-- The children of a schedule, in key order. -/
def childrenOf (l : Listing) (s : Schedule) : List WorkItem :=
  l.items.filter (·.isChildOf s)

variable {l : Listing} {s : Schedule} {w : WorkItem}

lemma Keyed.mem_childrenOf (h : l.Keyed) :
    w ∈ l.childrenOf s ↔ l.workItems[w.metadata.key]? = some w ∧ w.isChildOf s = true := by
  rw [childrenOf, List.mem_filter, h.mem_items]

lemma Keyed.nodup_childrenOf (h : l.Keyed) (s : Schedule) : ((l.childrenOf s).map (·.metadata.key)).Nodup :=
  h.nodup_items.sublist (List.filter_sublist.map _)

end Listing

namespace Replica
variable {r : Replica} {st : Store} {key : Key} {s : Schedule}

lemma pairwise_childrenOf (hkeyed : r.objects.Keyed) (owner : Key) :
    (r.childrenOf owner).Pairwise fun v w => compare v.metadata.key w.metadata.key = .lt := by
  unfold childrenOf
  rw [childKeys_eq, List.pairwise_filterMap]
  refine Std.ExtTreeSet.ordered_toList.imp fun {a b} hab v hv w hw => ?_
  rw [hkeyed.workItem_key hv, hkeyed.workItem_key hw]
  exact hab

/-- A current replica shows a schedule with its children. -/
theorem Current.view?_eq (h : r.Current st) (hkeyed : st.objects.Keyed)
    (hs : st.objects.schedules[key]? = some s) : r.view? key = some ⟨s, st.objects.childrenOf s⟩ := by
  obtain ⟨⟨schedule, children⟩, hview, rfl⟩ := h.exists_view hs
  have hshows := h.shows hkeyed hview
  have hsorted : children.Pairwise fun v w => compare v.metadata.key w.metadata.key = .lt := by
    unfold view? at hview
    obtain ⟨x, -, hx⟩ := Option.map_eq_some_iff.1 hview
    rw [← (View.mk.inj hx).2]
    rw [← h.objects] at hkeyed
    exact (pairwise_childrenOf hkeyed _).sublist List.filter_sublist
  have hmem : ∀ w, w ∈ children ↔ w ∈ st.objects.childrenOf schedule := by
    intro w
    rw [hshows.children, hkeyed.mem_childrenOf, WorkItem.isChildOf_iff, hkeyed.schedule_key hs]
  have hperm : children.Perm (st.objects.childrenOf schedule) :=
    (List.perm_ext_iff_of_nodup (List.Nodup.of_map _ hshows.nodup)
      (List.Nodup.of_map _ (hkeyed.nodup_childrenOf schedule))).2 hmem
  have hsame : children = st.objects.childrenOf schedule := by
    refine hperm.eq_of_pairwise (fun v w _ _ hvw hwv => ?_) hsorted
      (hkeyed.pairwise_items.sublist List.filter_sublist)
    rw [Std.OrientedCmp.gt_of_lt hwv] at hvw
    simp at hvw
  rw [hview, hsame]

end Replica

end Timetable
