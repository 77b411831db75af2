import Timetable.Proofs.Replica.Views
import Timetable.Proofs.Replica.Waking

/-!
# The owners that a replica tells

Whatever listings and changes a replica took in, its index has a work item under the schedule that the first
controller reference of the work item names, and under no other. So the work items found for a schedule are those
that name it, each once and in key order.
-/

namespace Timetable

namespace WorkItem
variable {w : WorkItem} {child owner : Key}

/-- The first controller reference is to a schedule, and it names one in the namespace of the child. -/
def Names (w : WorkItem) (child owner : Key) : Prop :=
  ∃ before r after, w.metadata.owners = before ++ r :: after ∧ (∀ x ∈ before, x.controller = false) ∧
    r.controller = true ∧ r.kind = Kind.schedule.name ∧ owner = ⟨child.space, r.name⟩

theorem ownerKey_eq_some_iff (hkey : w.metadata.key = child) : w.ownerKey = some owner ↔ w.Names child owner := by
  have hspace : w.metadata.space = child.space := congrArg Key.space hkey
  unfold ownerKey
  rw [Option.map_eq_some_iff]
  constructor
  · rintro ⟨r, hr, rfl⟩
    obtain ⟨hfound, hkind⟩ := Option.filter_eq_some_iff.1 hr
    obtain ⟨hcontroller, before, after, howners, hbefore⟩ := Meta.controller?_eq_some_iff.1 hfound
    exact ⟨before, r, after, howners, hbefore, hcontroller, beq_iff_eq.1 hkind, by rw [hspace]⟩
  · rintro ⟨before, r, after, howners, hbefore, hcontroller, hkind, rfl⟩
    refine ⟨r, Option.filter_eq_some_iff.2 ⟨?_, beq_iff_eq.2 hkind⟩, by rw [hspace]⟩
    exact Meta.controller?_eq_some_iff.2 ⟨hcontroller, before, after, howners, hbefore⟩

end WorkItem

namespace Replica
variable {r : Replica} {child owner key : Key} {news : News}

/-! ## What news keep -/

section
variable {P : Replica → Prop} (hupsert : ∀ r o, P r → P (r.upsert o).1)
include hupsert

lemma learn_preserves (h : P r) (o : Object) : P (r.learn o).1 := by
  unfold learn
  split
  · exact hupsert r o h
  · split_ifs
    · exact h
    · exact hupsert r o h

lemma learnAll_preserves (h : P r) (os : List Object) : P (r.learnAll os).1 := by
  induction os generalizing r with
  | nil => exact h
  | cons o os ih => exact ih (learn_preserves hupsert h o)

variable (hremove : ∀ r kind key, P r → P (r.remove kind key).1)
  (hseen : ∀ (r : Replica) version, P r → P { r with lastSeen := version })
include hremove hseen

/-- What single writes and removals keep is kept whatever is taken in. -/
lemma take_preserves (h : P r) (news : News) : P (r.take news).1 := by
  have hdropAll : ∀ os r, P r → P (r.dropAll os).1 := by
    intro os
    induction os with
    | nil => exact fun r h => h
    | cons o os ih => exact fun r h => ih _ (hremove r o.kind o.key h)
  cases news with
  | listing objects version => exact hseen _ _ (hdropAll _ _ (learnAll_preserves hupsert h objects))
  | change c =>
    unfold take apply
    dsimp only
    split_ifs
    · exact hseen _ _ h
    · cases c.type with
      | added => exact hseen _ _ (hupsert _ _ h)
      | modified => exact hseen _ _ (hupsert _ _ h)
      | deleted => exact hseen _ _ (hremove _ _ _ h)

end

lemma upsert_keyed (r : Replica) (o : Object) (h : r.objects.Keyed) : (r.upsert o).1.objects.Keyed := by
  rw [upsert_objects]
  exact h.put o

lemma Fed.keyed (h : Fed r) : r.objects.Keyed := by
  induction h with
  | start => exact Listing.keyed_empty
  | take _ news ih =>
    refine take_preserves (P := fun r => r.objects.Keyed) upsert_keyed ?_ (fun _ _ h => h) ih news
    intro r kind key h
    rw [remove_objects]
    exact h.erase kind key

/-- No schedule has an empty set of children. -/
def Tidy (r : Replica) : Prop :=
  ∀ owner : Key, r.children[owner]? ≠ some ∅

lemma Tidy.unindex (h : r.Tidy) (child : Key) : (r.unindex child).Tidy := by
  intro owner
  unfold Replica.unindex
  split
  · exact h owner
  · rename_i named _
    dsimp only
    split_ifs with hempty
    · rw [KeyMap.getElem?_erase]
      split_ifs
      · exact nofun
      · exact h owner
    · rw [KeyMap.getElem?_insert]
      split_ifs
      · intro hset
        exact hempty (Std.ExtTreeSet.isEmpty_iff.2 (Option.some.inj hset))
      · exact h owner

lemma Tidy.index (h : r.Tidy) (child owner : Key) : (r.index child owner).Tidy := by
  intro other
  unfold Replica.index
  rw [KeyMap.getElem?_insert]
  split_ifs
  · intro hset
    have hmem : child ∈ (∅ : KeySet) := by
      rw [← Option.some.inj hset, KeySet.mem_insert]
      exact .inl rfl
    simp at hmem
  · exact h other

lemma Tidy.reindex (h : r.Tidy) (w : WorkItem) : (r.reindex w).Tidy := by
  unfold Replica.reindex
  cases w.ownerKey with
  | none => exact h.unindex _
  | some owner => exact (h.unindex _).index _ owner

lemma Fed.tidy (h : Fed r) : r.Tidy := by
  induction h with
  | start => intro owner; simp [empty]
  | take _ news ih =>
    refine take_preserves (P := Tidy) ?_ ?_ (fun _ _ h => h) ih news
    · intro r o h
      cases o with
      | schedule s => exact h
      | workItem w =>
        rw [upsert_workItem]
        exact h.reindex w
    · intro r kind key h
      cases kind with
      | schedule => exact h
      | workItem => exact h.unindex key

/-! ## Owners and children -/

/-- The replica that takes in some news, beginning empty. -/
def fed (news : List News) : Replica :=
  news.foldl (fun r n => (r.take n).1) empty

lemma fed_fed (news : List News) : Fed (fed news) := by
  induction news using List.reverseRecOn with
  | nil => exact .start
  | append_singleton news n ih =>
    unfold fed at ih ⊢
    rw [List.foldl_append]
    exact ih.take n

lemma mem_childSet_iff : child ∈ r.childSet owner ↔ ∃ keys, r.children[owner]? = some keys ∧ child ∈ keys := by
  unfold childSet
  cases r.children[owner]? with
  | none => simp
  | some keys => simp

/-- A work item is indexed under the schedule that it names. -/
lemma Fed.owner_iff (h : Fed r) :
    r.owners[child]? = some owner ↔ ∃ w, r.objects.workItems[child]? = some w ∧ w.Names child owner := by
  rw [h.indexed.owners, Option.bind_eq_some_iff]
  refine exists_congr fun w => and_congr_right fun hw => ?_
  exact WorkItem.ownerKey_eq_some_iff (h.keyed.workItem_key hw)

lemma Fed.child_iff (h : Fed r) {w : WorkItem} (hw : r.objects.workItems[child]? = some w) :
    w ∈ r.childrenOf owner ↔ w.Names child owner := by
  have hkey := h.keyed.workItem_key hw
  rw [h.indexed.mem_childrenOf, ← WorkItem.ownerKey_eq_some_iff hkey]
  constructor
  · rintro ⟨-, -, howner⟩
    exact howner
  · intro howner
    exact ⟨child, hw, howner⟩

/-- The index has each work item under the schedule that its first controller reference names, and nothing else. The
work items found for a schedule are those, in the order of their keys, each once. -/
theorem index_tells_owners (news : List News) (owner : Key) :
    (∀ child : Key, (fed news).owners[child]? = some owner ↔
        ∃ w, (fed news).objects.workItems[child]? = some w ∧ w.Names child owner) ∧
      (∀ child : Key, (∃ keys, (fed news).children[owner]? = some keys ∧ child ∈ keys) ↔
        (fed news).owners[child]? = some owner) ∧
      (fed news).children[owner]? ≠ some ∅ ∧
      (∀ w, w ∈ (fed news).childrenOf owner ↔
        ∃ child : Key, (fed news).objects.workItems[child]? = some w ∧ w.Names child owner) ∧
      ((fed news).childrenOf owner).Pairwise (fun v w => compare v.metadata.key w.metadata.key = .lt) ∧
      ∀ (child : Key) (w : WorkItem), (fed news).objects.workItems[child]? = some w →
        w.metadata.key = child ∧ ((fed news).owners[child]? = some owner ↔ w ∈ (fed news).childrenOf owner) := by
  have h := fed_fed news
  refine ⟨fun child => h.owner_iff, fun child => ?_, h.tidy owner, fun w => ?_, pairwise_childrenOf h.keyed owner,
    fun child w hw => ⟨h.keyed.workItem_key hw, ?_⟩⟩
  · rw [← mem_childSet_iff]
    exact h.indexed.linked owner child
  · constructor
    · intro hw
      obtain ⟨child, hchild, -⟩ := h.indexed.mem_childrenOf.1 hw
      exact ⟨child, hchild, (h.child_iff hchild).1 hw⟩
    · rintro ⟨child, hchild, hnames⟩
      exact (h.child_iff hchild).2 hnames
  · rw [h.child_iff hw, h.owner_iff]
    constructor
    · rintro ⟨v, hv, hnames⟩
      rwa [Option.some.inj (hw.symm.trans hv)]
    · exact fun hnames => ⟨w, hw, hnames⟩

/-- A child that moves from one schedule to another one. -/
def moving : List News :=
  [.listing [.workItem (naming (some "tick") 1)] 1, .change ⟨.modified, .workItem (naming (some "tock") 2)⟩]

/-- The new owner has the child, and the old one has none any more. -/
theorem index_tells_owners_moving :
    (fed moving).owners[(⟨"jobs", "tick-60"⟩ : Key)]? = some ⟨"jobs", "tock"⟩ ∧
      naming (some "tock") 2 ∈ (fed moving).childrenOf ⟨"jobs", "tock"⟩ ∧
      ∀ w, w ∉ (fed moving).childrenOf tickKey := by
  have hitem : (fed moving).objects.workItems[(⟨"jobs", "tick-60"⟩ : Key)]? = some (naming (some "tock") 2) := by
    decide +kernel
  have hnames : (naming (some "tock") 2).Names ⟨"jobs", "tick-60"⟩ ⟨"jobs", "tock"⟩ :=
    ⟨[], ⟨Kind.schedule.name, "tock", .ofNat 0, true⟩, [], rfl, nofun, rfl, rfl, rfl⟩
  obtain ⟨howner, -, -, -, -, hagree⟩ := index_tells_owners moving ⟨"jobs", "tock"⟩
  have htock := (howner _).2 ⟨_, hitem, hnames⟩
  refine ⟨htock, ((hagree _ _ hitem).2).1 htock, fun w hw => ?_⟩
  obtain ⟨howner', -, -, hchildren, -, hagree'⟩ := index_tells_owners moving tickKey
  obtain ⟨child, hchild, hnamed⟩ := (hchildren w).1 hw
  have hkey : child = ⟨"jobs", "tick-60"⟩ := by
    have hall : ∀ e ∈ (fed moving).objects.workItems.toList, e.1 = ⟨"jobs", "tick-60"⟩ := by decide +kernel
    exact hall _ (KeyMap.mem_toList.2 hchild)
  have htick := (howner' child).2 ⟨w, hchild, hnamed⟩
  rw [hkey] at htick
  exact absurd (Option.some.inj (htock.symm.trans htick)) (by decide)

end Replica

end Timetable
