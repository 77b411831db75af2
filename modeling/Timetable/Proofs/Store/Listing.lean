import Mathlib.Data.List.Basic
import Timetable.Store.Basic

/-!
# Listings by key

What writing and erasing do to the object under each key. A listing is determined by the objects under its
keys, and in a keyed listing every object stands under its own key.
-/

namespace Timetable

namespace KeyMap
variable {α : Type}

@[simp]
lemma getElem?_insert (m : KeyMap α) (key other : Key) (a : α) :
    (m.insert key a)[other]? = if key = other then some a else m[other]? := by
  rw [Std.ExtTreeMap.getElem?_insert]
  simp only [Std.LawfulEqOrd.compare_eq_iff_eq]

@[simp]
lemma getElem?_erase (m : KeyMap α) (key other : Key) :
    (m.erase key)[other]? = if key = other then none else m[other]? := by
  rw [Std.ExtTreeMap.getElem?_erase]
  simp only [Std.LawfulEqOrd.compare_eq_iff_eq]

lemma mem_toList {m : KeyMap α} {key : Key} {a : α} : (key, a) ∈ m.toList ↔ m[key]? = some a :=
  Std.ExtTreeMap.mem_toList_iff_getElem?_eq_some

end KeyMap

namespace Object

@[simp]
lemma kind_withVersion (o : Object) (v : Nat) : (o.withVersion v).kind = o.kind := by
  cases o <;> rfl

@[simp]
lemma key_withVersion (o : Object) (v : Nat) : (o.withVersion v).key = o.key := by
  cases o <;> rfl

@[simp]
lemma version_withVersion (o : Object) (v : Nat) : (o.withVersion v).version = v := by
  cases o <;> rfl

end Object

namespace Store

@[simp]
lemma kind_stamped (o : Object) (stamp : Stamp) (v : Nat) : (stamped o stamp v).kind = o.kind := by
  cases o <;> rfl

@[simp]
lemma key_stamped (o : Object) (stamp : Stamp) (v : Nat) : (stamped o stamp v).key = o.key := by
  cases o <;> rfl

lemma uid_stamped (o : Object) (stamp : Stamp) (v : Nat) : (stamped o stamp v).metadata.uid = stamp.uid := by
  cases o <;> rfl

lemma owners_stamped (o : Object) (stamp : Stamp) (v : Nat) :
    (stamped o stamp v).metadata.owners = o.metadata.owners := by
  cases o <;> rfl

lemma withVersion_stamped (o : Object) (stamp : Stamp) (v : Nat) :
    (stamped o stamp v).withVersion v = stamped o stamp v := by
  cases o <;> rfl

end Store

namespace Listing
variable {l m : Listing} {kind : Kind} {key : Key} {o : Object}

@[simp]
lemma get?_schedule : l.get? .schedule key = l.schedules[key]?.map .schedule := rfl

@[simp]
lemma get?_workItem : l.get? .workItem key = l.workItems[key]?.map .workItem := rfl

@[simp]
lemma get?_empty (kind : Kind) (key : Key) : empty.get? kind key = none := by
  cases kind <;> simp [empty]

lemma kind_of_get? (h : l.get? kind key = some o) : o.kind = kind := by
  cases kind with
  | schedule =>
    obtain ⟨s, -, rfl⟩ := Option.map_eq_some_iff.1 h
    rfl
  | workItem =>
    obtain ⟨w, -, rfl⟩ := Option.map_eq_some_iff.1 h
    rfl

theorem get?_put (l : Listing) (o : Object) (kind : Kind) (key : Key) :
    (l.put o).get? kind key = if o.kind = kind ∧ o.key = key then some o else l.get? kind key := by
  cases o with
  | schedule s =>
    cases kind with
    | schedule => by_cases h : s.metadata.key = key <;> simp [put, Object.kind, Object.key, Object.metadata, h]
    | workItem => simp [put, Object.kind]
  | workItem w =>
    cases kind with
    | schedule => simp [put, Object.kind]
    | workItem => by_cases h : w.metadata.key = key <;> simp [put, Object.kind, Object.key, Object.metadata, h]

theorem get?_erase (l : Listing) (erased kind : Kind) (gone key : Key) :
    (l.erase erased gone).get? kind key =
      if erased = kind ∧ gone = key then none else l.get? kind key := by
  by_cases h : gone = key <;> cases erased <;> cases kind <;> simp [erase, h]

theorem get?_apply (l : Listing) (c : Change) (kind : Kind) (key : Key) :
    (l.apply c).get? kind key =
      if c.object.kind = kind ∧ c.object.key = key then (if c.type = .deleted then none else some c.object)
      else l.get? kind key := by
  unfold apply
  cases c.type with
  | added => exact l.get?_put c.object kind key
  | modified => exact l.get?_put c.object kind key
  | deleted => exact l.get?_erase c.object.kind kind c.object.key key

theorem ext_get? (h : ∀ kind key, l.get? kind key = m.get? kind key) : l = m := by
  have hs : l.schedules = m.schedules := by
    apply Std.ExtTreeMap.ext_getElem?
    intro key
    have hinj : Function.Injective Object.schedule := fun _ _ => Object.schedule.inj
    exact Option.map_injective hinj (h .schedule key)
  have hw : l.workItems = m.workItems := by
    apply Std.ExtTreeMap.ext_getElem?
    intro key
    have hinj : Function.Injective Object.workItem := fun _ _ => Object.workItem.inj
    exact Option.map_injective hinj (h .workItem key)
  cases l
  cases m
  simp_all

/-! ## Objects under their own keys -/

/-- An object of a listing stands under its own key. -/
instance : Membership Object Listing := ⟨fun l o => l.get? o.kind o.key = some o⟩

lemma mem_def : o ∈ l ↔ l.get? o.kind o.key = some o := Iff.rfl

/-- Every object stands under its own key. -/
def Keyed (l : Listing) : Prop :=
  ∀ kind key o, l.get? kind key = some o → o.key = key

lemma Keyed.mem (h : l.Keyed) (ho : l.get? kind key = some o) : o ∈ l := by
  rw [mem_def, kind_of_get? ho, h kind key o ho]
  exact ho

lemma keyed_empty : empty.Keyed := by
  intro kind key o ho
  simp at ho

lemma mem_put {p : Object} (h : p ∈ l.put o) : p = o ∨ p ∈ l := by
  rw [mem_def, get?_put] at h
  split_ifs at h with hk
  · exact Or.inl (Option.some.inj h).symm
  · exact Or.inr h

lemma mem_erase {p : Object} (h : p ∈ l.erase kind key) : p ∈ l := by
  rw [mem_def, get?_erase] at h
  split_ifs at h
  exact h

lemma Keyed.put (h : l.Keyed) (o : Object) : (l.put o).Keyed := by
  intro kind key p hp
  rw [get?_put] at hp
  split_ifs at hp with hk
  · rw [← Option.some.inj hp]
    exact hk.2
  · exact h kind key p hp

lemma Keyed.erase (h : l.Keyed) (erased : Kind) (gone : Key) : (l.erase erased gone).Keyed := by
  intro kind key p hp
  rw [get?_erase] at hp
  split_ifs at hp
  exact h kind key p hp

lemma Keyed.apply (h : l.Keyed) (c : Change) : (l.apply c).Keyed := by
  unfold Listing.apply
  split
  · exact h.put c.object
  · exact h.put c.object
  · exact h.erase c.object.kind c.object.key

lemma put_of_mem (h : o ∈ l) : l.put o = l := by
  apply ext_get?
  intro kind key
  rw [get?_put]
  split_ifs with hk
  · rw [← hk.1, ← hk.2]
    exact h.symm
  · rfl

lemma mem_toList : o ∈ l.toList ↔ ∃ key, l.get? o.kind key = some o := by
  unfold toList items
  simp only [List.mem_append, List.mem_map, Prod.exists, KeyMap.mem_toList]
  cases o with
  | schedule s => simp [Object.kind]
  | workItem w => simp [Object.kind]

lemma Keyed.mem_toList (h : l.Keyed) : o ∈ l.toList ↔ o ∈ l := by
  rw [Listing.mem_toList]
  constructor
  · rintro ⟨key, hkey⟩
    exact h.mem hkey
  · intro ho
    exact ⟨o.key, ho⟩

/-! ## Work items -/

lemma mem_items {w : WorkItem} : w ∈ l.items ↔ ∃ key : Key, l.workItems[key]? = some w := by
  unfold items
  simp only [List.mem_map, Prod.exists, KeyMap.mem_toList]
  simp

lemma Keyed.workItem_key (h : l.Keyed) {w : WorkItem} (hw : l.workItems[key]? = some w) :
    w.metadata.key = key :=
  h .workItem key (.workItem w) (by rw [get?_workItem, hw]; rfl)

lemma Keyed.schedule_key (h : l.Keyed) {x : Schedule} (hx : l.schedules[key]? = some x) :
    x.metadata.key = key :=
  h .schedule key (.schedule x) (by rw [get?_schedule, hx]; rfl)

lemma Keyed.mem_items (h : l.Keyed) {w : WorkItem} :
    w ∈ l.items ↔ l.workItems[w.metadata.key]? = some w := by
  rw [Listing.mem_items]
  constructor
  · rintro ⟨key, hkey⟩
    rwa [h.workItem_key hkey]
  · intro hw
    exact ⟨w.metadata.key, hw⟩

/-- No key has two work items. -/
lemma Keyed.nodup_items (h : l.Keyed) : (l.items.map (·.metadata.key)).Nodup := by
  have hkeys : l.items.map (·.metadata.key) = l.workItems.toList.map Prod.fst := by
    unfold items
    rw [List.map_map]
    apply List.map_congr_left
    intro e he
    exact h.workItem_key (KeyMap.mem_toList.1 he)
  rw [hkeys, Std.ExtTreeMap.map_fst_toList_eq_keys]
  exact Std.ExtTreeMap.nodup_keys

lemma Keyed.pairwise_items (h : l.Keyed) :
    l.items.Pairwise fun v w => compare v.metadata.key w.metadata.key = .lt := by
  unfold items
  rw [List.pairwise_map]
  refine Std.ExtTreeMap.ordered_keys_toList.imp_of_mem fun {a b} ha hb hab => ?_
  rw [h.workItem_key (KeyMap.mem_toList.1 ha), h.workItem_key (KeyMap.mem_toList.1 hb)]
  exact hab

end Listing

end Timetable
