import Timetable.Proofs.Replica.Objects

/-!
# The index of a replica

In an indexed replica each work item stands under the schedule that it names as its controller and under
no other, whatever the replica took in. So the children found for a schedule are the work items that name
it.
-/

namespace Timetable

namespace KeySet

lemma mem_insert {s : KeySet} {key other : Key} : other ∈ s.insert key ↔ key = other ∨ other ∈ s := by
  rw [Std.ExtTreeSet.mem_insert, Std.LawfulEqOrd.compare_eq_iff_eq]

lemma mem_erase {s : KeySet} {key other : Key} : other ∈ s.erase key ↔ key ≠ other ∧ other ∈ s := by
  rw [Std.ExtTreeSet.mem_erase, ne_eq, ne_eq, Std.LawfulEqOrd.compare_eq_iff_eq]

end KeySet

namespace Replica
variable {r : Replica} {l : Listing} {o : Object} {kind : Kind} {key child owner : Key}

/-- The work items indexed under a schedule. -/
def childSet (r : Replica) (owner : Key) : KeySet :=
  r.children[owner]?.getD ∅

/-- The two sides of the index tell the same. -/
def Linked (r : Replica) : Prop :=
  ∀ owner child, child ∈ r.childSet owner ↔ r.owners[child]? = some owner

/-- The index tells which schedule each work item names. -/
structure Indexed (r : Replica) : Prop where
  linked : r.Linked
  owners : ∀ child : Key, r.owners[child]? = r.objects.workItems[child]?.bind WorkItem.ownerKey

lemma indexed_empty : empty.Indexed := by
  constructor
  · intro owner child
    simp [childSet, empty]
  · intro child
    simp [empty, Listing.empty]

/-! ## Single work items -/

lemma unindex_owners (r : Replica) (child other : Key) :
    (r.unindex child).owners[other]? = if child = other then none else r.owners[other]? := by
  unfold unindex
  split
  · rename_i hnone
    split_ifs with h
    · rw [← h, hnone]
    · rfl
  · exact KeyMap.getElem?_erase _ _ _

lemma unindex_childSet {named : Key} (h : r.owners[child]? = some named) (owner : Key) :
    (r.unindex child).childSet owner =
      if named = owner then (r.childSet named).erase child else r.childSet owner := by
  unfold unindex childSet
  rw [h]
  dsimp only
  split_ifs with hempty howner howner
  · rw [KeyMap.getElem?_erase, if_pos howner]
    exact (Std.ExtTreeSet.isEmpty_iff.1 hempty).symm
  · rw [KeyMap.getElem?_erase, if_neg howner]
  · rw [KeyMap.getElem?_insert, if_pos howner]
    rfl
  · rw [KeyMap.getElem?_insert, if_neg howner]

lemma Linked.unindex (h : r.Linked) (child : Key) : (r.unindex child).Linked := by
  intro owner other
  rw [unindex_owners]
  cases hnamed : r.owners[child]? with
  | none =>
    have hsame : r.unindex child = r := by
      unfold Replica.unindex
      rw [hnamed]
    rw [hsame, h owner other]
    split_ifs with hchild
    · rw [← hchild, hnamed]
      simp
    · rfl
  | some named =>
    rw [unindex_childSet hnamed]
    by_cases howner : named = owner
    · rw [if_pos howner, KeySet.mem_erase, howner, h owner other]
      by_cases hchild : child = other
      · simp [hchild]
      · simp [hchild]
    · rw [if_neg howner, h owner other]
      by_cases hchild : child = other
      · rw [if_pos hchild, ← hchild, hnamed]
        simp [howner]
      · rw [if_neg hchild]

lemma Linked.index (h : r.Linked) (hnew : r.owners[child]? = none) (owner : Key) :
    (r.index child owner).Linked := by
  intro other c
  have howners : (r.index child owner).owners[c]? = if child = c then some owner else r.owners[c]? :=
    KeyMap.getElem?_insert _ _ _ _
  have hset : (r.index child owner).childSet other =
      if owner = other then (r.childSet owner).insert child else r.childSet other := by
    unfold Replica.index childSet
    dsimp only
    rw [KeyMap.getElem?_insert]
    split_ifs
    · rfl
    · rfl
  rw [howners, hset]
  by_cases howner : owner = other
  · rw [if_pos howner, KeySet.mem_insert, howner, h other c]
    by_cases hchild : child = c
    · simp [hchild]
    · simp [hchild]
  · rw [if_neg howner, h other c]
    by_cases hchild : child = c
    · rw [if_pos hchild, ← hchild, hnew]
      simp [howner]
    · rw [if_neg hchild]

/-- Puts a work item under the schedule that it names and takes it from where it was. -/
def reindex (r : Replica) (w : WorkItem) : Replica :=
  match w.ownerKey with
  | none => r.unindex w.metadata.key
  | some owner => (r.unindex w.metadata.key).index w.metadata.key owner

lemma Linked.reindex (h : r.Linked) (w : WorkItem) : (r.reindex w).Linked := by
  have hlinked := h.unindex w.metadata.key
  have hgone : (r.unindex w.metadata.key).owners[w.metadata.key]? = none := by
    rw [unindex_owners, if_pos rfl]
  unfold Replica.reindex
  cases w.ownerKey with
  | none => exact hlinked
  | some owner => exact hlinked.index hgone owner

lemma reindex_owners (r : Replica) (w : WorkItem) (c : Key) :
    (r.reindex w).owners[c]? = if w.metadata.key = c then w.ownerKey else r.owners[c]? := by
  unfold reindex
  cases w.ownerKey with
  | none => exact unindex_owners r w.metadata.key c
  | some owner =>
    unfold index
    rw [KeyMap.getElem?_insert]
    by_cases hc : w.metadata.key = c
    · rw [if_pos hc, if_pos hc]
    · rw [if_neg hc, if_neg hc, unindex_owners, if_neg hc]

/-! ## Objects -/

lemma reindex_objects (r : Replica) (w : WorkItem) : (r.reindex w).objects = r.objects := by
  unfold reindex
  cases w.ownerKey with
  | none => exact unindex_objects r w.metadata.key
  | some owner => exact unindex_objects r w.metadata.key

lemma upsert_workItem (r : Replica) (w : WorkItem) :
    (r.upsert (.workItem w)).1 = { r.reindex w with objects := r.objects.put (.workItem w) } := by
  have hstored : (r.upsert (.workItem w)).1 =
      { r.reindex w with objects := (r.reindex w).objects.put (.workItem w) } := rfl
  rw [hstored, reindex_objects]

lemma Indexed.upsert (h : r.Indexed) (o : Object) : (r.upsert o).1.Indexed := by
  cases o with
  | schedule s => exact ⟨h.linked, h.owners⟩
  | workItem w =>
    rw [upsert_workItem]
    constructor
    · exact h.linked.reindex w
    · intro c
      have hput : (r.objects.put (.workItem w)).workItems[c]? =
          if w.metadata.key = c then some w else r.objects.workItems[c]? :=
        KeyMap.getElem?_insert _ _ _ _
      dsimp only
      rw [reindex_owners, hput]
      by_cases hc : w.metadata.key = c
      · rw [if_pos hc, if_pos hc, Option.bind_some]
      · rw [if_neg hc, if_neg hc, h.owners c]

lemma Indexed.remove (h : r.Indexed) (kind : Kind) (key : Key) : (r.remove kind key).1.Indexed := by
  cases kind with
  | schedule => exact ⟨h.linked, h.owners⟩
  | workItem =>
    constructor
    · exact h.linked.unindex key
    · intro c
      have howners : (r.remove .workItem key).1.owners[c]? = (r.unindex key).owners[c]? := rfl
      have hobjects : (r.remove .workItem key).1.objects.workItems[c]? =
          if key = c then none else r.objects.workItems[c]? := by
        rw [remove_objects]
        exact KeyMap.getElem?_erase _ _ _
      rw [howners, hobjects, unindex_owners]
      by_cases hc : key = c
      · rw [if_pos hc, if_pos hc, Option.bind_none]
      · rw [if_neg hc, if_neg hc, h.owners c]

/-! ## News -/

lemma Indexed.learn (h : r.Indexed) (o : Object) : (r.learn o).1.Indexed := by
  unfold Replica.learn
  split
  · exact h.upsert o
  · split_ifs
    · exact h
    · exact h.upsert o

lemma Indexed.learnAll (h : r.Indexed) (os : List Object) : (r.learnAll os).1.Indexed := by
  induction os generalizing r with
  | nil => exact h
  | cons o os ih => exact ih (h.learn o)

lemma Indexed.dropAll (h : r.Indexed) (os : List Object) : (r.dropAll os).1.Indexed := by
  induction os generalizing r with
  | nil => exact h
  | cons o os ih => exact ih (h.remove o.kind o.key)

lemma Indexed.seen (h : r.Indexed) (version : Nat) : { r with lastSeen := version }.Indexed :=
  ⟨h.linked, h.owners⟩

theorem Indexed.replace (h : r.Indexed) (os : List Object) (version : Nat) :
    (r.replace os version).1.Indexed := by
  unfold Replica.replace
  exact ((h.learnAll os).dropAll _).seen _

theorem Indexed.apply (h : r.Indexed) (c : Change) : (r.apply c).1.Indexed := by
  unfold Replica.apply
  dsimp only
  split_ifs
  · exact h.seen _
  · cases c.type with
    | added => exact (h.upsert c.object).seen _
    | modified => exact (h.upsert c.object).seen _
    | deleted => exact (h.remove c.object.kind c.object.key).seen _

/-! ## Children -/

/-- The children of a schedule are the work items that name it. -/
theorem Indexed.mem_childrenOf (h : r.Indexed) {w : WorkItem} :
    w ∈ r.childrenOf owner ↔
      ∃ key : Key, r.objects.workItems[key]? = some w ∧ w.ownerKey = some owner := by
  have hkeys : ∀ key, key ∈ r.childKeys owner ↔ key ∈ r.childSet owner := by
    intro key
    unfold childKeys childSet
    cases r.children[owner]? with
    | none => simp
    | some keys => exact Std.ExtTreeSet.mem_toList
  unfold childrenOf
  rw [List.mem_filterMap]
  constructor
  · rintro ⟨key, hkey, hw⟩
    rw [hkeys, h.linked, h.owners, hw] at hkey
    exact ⟨key, hw, hkey⟩
  · rintro ⟨key, hw, howner⟩
    refine ⟨key, ?_, hw⟩
    rw [hkeys, h.linked, h.owners, hw]
    exact howner

end Replica

end Timetable
