import Timetable.Proofs.Replica.Current
import Timetable.Proofs.Store.Keeping

/-!
# Which schedules news wakes

The events of a listing or a change make the queue be handed each schedule whose children became different, with
one exception: an event about a work item names one schedule only, the one that the new state of the work item
names. A schedule that a work item leaves for another one, or for none, is not told.
-/

namespace Timetable

/-- What a replica takes in. -/
inductive News
  | listing (objects : List Object) (version : Nat)
  | change (c : Change)

namespace Replica

def take (r : Replica) : News → Replica × List Event
  | .listing objects version => r.replace objects version
  | .change c => r.apply c

/-- What a replica becomes that begins empty. -/
inductive Fed : Replica → Prop
  | start : Fed .empty
  | take {r : Replica} (h : Fed r) (news : News) : Fed (r.take news).1

/-- The keys that events put into the queue. -/
def woken (events : List Event) : List Key :=
  events.filterMap Event.schedule?

/-- The schedule that the work item of a key names, if there is one. -/
def named? (r : Replica) (child : Key) : Option Key :=
  r.objects.workItems[child]?.bind WorkItem.ownerKey

/-- A work item of the schedule is still there under its key but names the schedule no more. -/
def Leaves (r later : Replica) (owner child : Key) : Prop :=
  r.named? child = some owner ∧ ∃ w, later.objects.workItems[child]? = some w ∧ w.ownerKey ≠ some owner

variable {r m later : Replica} {o : Object} {news : News} {owner child key : Key} {kind : Kind}
  {events more : List Event} {os : List Object}

lemma Fed.indexed (h : Fed r) : r.Indexed := by
  induction h with
  | start => exact indexed_empty
  | take _ news ih =>
    cases news with
    | listing objects version => exact ih.replace objects version
    | change c => exact ih.apply c

lemma enqueue_eq (q : WorkQueue Key) (events : List Event) :
    events.foldl WorkQueue.enqueueOwner q = (woken events).foldl (fun q key => (q.add key).1) q := by
  induction events generalizing q with
  | nil => rfl
  | cons e events ih =>
    rw [List.foldl_cons, ih]
    unfold woken WorkQueue.enqueueOwner
    rw [List.filterMap_cons]
    cases e.schedule? with
    | none => rfl
    | some key => rfl

lemma woken_append (events more : List Event) : woken (events ++ more) = woken events ++ woken more :=
  List.filterMap_append

/-! ## Learning -/

/-- A schedule that is not told keeps its children, but for those that name it no more, and gets none. -/
structure Untold (r later : Replica) (owner : Key) : Prop where
  new : ∀ child, later.named? child = some owner →
    later.objects.workItems[child]? = r.objects.workItems[child]?
  old : ∀ child, r.named? child = some owner →
    later.objects.workItems[child]? = r.objects.workItems[child]? ∨ r.Leaves later owner child

lemma Untold.refl (r : Replica) (owner : Key) : r.Untold r owner :=
  ⟨fun _ _ => rfl, fun _ _ => .inl rfl⟩

lemma Untold.of_objects (h : r.Untold m owner) (hobjects : later.objects = m.objects) :
    r.Untold later owner := by
  constructor
  · intro child hchild
    unfold named? at hchild
    rw [hobjects] at hchild ⊢
    exact h.new child hchild
  · intro child hchild
    obtain hsame | ⟨-, hleft⟩ := h.old child hchild
    · left
      rw [hobjects, hsame]
    · right
      unfold Leaves
      rw [hobjects]
      exact ⟨hchild, hleft⟩

/-- Work items stay or are replaced. -/
def Keeps (r later : Replica) : Prop :=
  ∀ child : Key, r.objects.workItems[child]?.isSome → later.objects.workItems[child]?.isSome

lemma named?_eq (h : later.objects.workItems[child]? = r.objects.workItems[child]?) :
    later.named? child = r.named? child := by
  unfold named?
  rw [h]

lemma Untold.trans (h : r.Untold m owner) (h' : m.Untold later owner) (hkeep : m.Keeps later) :
    r.Untold later owner := by
  constructor
  · intro child hchild
    have hlast := h'.new child hchild
    rw [hlast]
    exact h.new child (named?_eq hlast ▸ hchild)
  · intro child hchild
    obtain hsame | ⟨-, w, hw, hleft⟩ := h.old child hchild
    · obtain hlast | ⟨-, hleft⟩ := h'.old child (named?_eq hsame ▸ hchild)
      · exact .inl (hlast.trans hsame)
      · exact .inr ⟨hchild, hleft⟩
    · -- it names the schedule no more, and if it did again the schedule would be told
      right
      obtain ⟨v, hv⟩ := Option.isSome_iff_exists.1 (hkeep child (by rw [hw]; rfl))
      refine ⟨hchild, v, hv, fun hback => ?_⟩
      have hlast := h'.new child (by unfold named?; rw [hv]; exact hback)
      rw [hv, hw] at hlast
      exact hleft (Option.some.inj hlast ▸ hback)

lemma upsert_keeps (r : Replica) (o : Object) : r.Keeps (r.upsert o).1 := by
  intro child hchild
  rw [upsert_objects]
  cases o with
  | schedule s => exact hchild
  | workItem w =>
    rw [Store.workItems_put]
    split_ifs
    · rfl
    · exact hchild

/-- Storing a work item concerns the schedule that it names. -/
lemma upsert_untold {e : Event} (hobject : e.object = o) (howner : e.owner = (r.upsert o).2)
    (hnot : owner ∉ woken [e]) : r.Untold (r.upsert o).1 owner := by
  cases o with
  | schedule s =>
    constructor
    · intro child _
      rw [upsert_objects]
      rfl
    · intro child _
      left
      rw [upsert_objects]
      rfl
  | workItem w =>
    have hnamed : w.ownerKey ≠ some owner := by
      intro hw
      apply hnot
      have hschedule : e.schedule? = some owner := by
        unfold Event.schedule?
        rw [hobject, howner]
        exact hw
      unfold woken
      rw [List.filterMap_cons, hschedule]
      exact List.mem_cons_self
    have hget : ∀ child : Key, (r.objects.put (.workItem w)).workItems[child]? =
        if w.metadata.key = child then some w else r.objects.workItems[child]? := fun _ => Store.workItems_put
    constructor
    · intro child hchild
      unfold named? at hchild
      rw [upsert_objects, hget] at hchild ⊢
      split_ifs at hchild ⊢
      · exact absurd hchild hnamed
      · rfl
    · intro child hchild
      rw [upsert_objects, hget]
      split_ifs with hkey
      · refine .inr ⟨hchild, w, ?_, hnamed⟩
        rw [upsert_objects, hget, if_pos hkey]
      · exact .inl rfl

lemma learn_keeps (r : Replica) (o : Object) : r.Keeps (r.learn o).1 := by
  unfold learn
  split
  · exact upsert_keeps r o
  · split_ifs
    · exact fun _ h => h
    · exact upsert_keeps r o

lemma learn_untold (hnot : owner ∉ woken (r.learn o).2) : r.Untold (r.learn o).1 owner := by
  unfold learn at hnot ⊢
  split
  · rename_i hget
    rw [hget] at hnot
    exact upsert_untold rfl rfl hnot
  · rename_i old hget
    rw [hget] at hnot
    dsimp only at hnot
    split_ifs at hnot ⊢
    · exact .refl r owner
    · exact upsert_untold rfl rfl hnot

lemma learnAll_cons (r : Replica) (o : Object) (os : List Object) :
    r.learnAll (o :: os) =
      (((r.learn o).1.learnAll os).1, (r.learn o).2 ++ ((r.learn o).1.learnAll os).2) := rfl

lemma learnAll_keeps (r : Replica) (os : List Object) : r.Keeps (r.learnAll os).1 := by
  induction os generalizing r with
  | nil => exact fun _ h => h
  | cons o os ih => exact fun child h => ih (r.learn o).1 child (learn_keeps r o child h)

theorem learnAll_untold (hnot : owner ∉ woken (r.learnAll os).2) : r.Untold (r.learnAll os).1 owner := by
  induction os generalizing r with
  | nil => exact .refl r owner
  | cons o os ih =>
    rw [learnAll_cons, woken_append, List.mem_append, not_or] at hnot
    exact (learn_untold hnot.1).trans (ih hnot.2) (learnAll_keeps _ os)

/-- Only what is listed changes. -/
lemma learnAll_unlisted (hnot : ¬Under os .workItem child) :
    (r.learnAll os).1.objects.workItems[child]? = r.objects.workItems[child]? := by
  induction os generalizing r with
  | nil => rfl
  | cons o os ih =>
    rw [under_cons, not_or] at hnot
    rw [learnAll_cons, ih hnot.2]
    have hput : (r.upsert o).1.objects.workItems[child]? = r.objects.workItems[child]? := by
      rw [upsert_objects]
      cases o with
      | schedule s => rfl
      | workItem w =>
        have hkey : w.metadata.key ≠ child := fun hkey => hnot.1 ⟨rfl, hkey⟩
        rw [Store.workItems_put, if_neg hkey]
    unfold learn
    split
    · exact hput
    · split_ifs
      · rfl
      · exact hput

/-! ## Dropping -/

lemma remove_workItems (r : Replica) (kind : Kind) (key child : Key) :
    (r.remove kind key).1.objects.workItems[child]? =
      if kind = .workItem ∧ key = child then none else r.objects.workItems[child]? := by
  rw [remove_objects]
  cases kind with
  | schedule => rfl
  | workItem =>
    rw [Store.workItems_erase]
    simp only [true_and]

/-- Removing a work item concerns the schedule that it named. -/
lemma remove_named (hr : r.Indexed) {e : Event} (hobject : e.object.kind = kind)
    (howner : ∀ named, (r.remove kind key).2 = some named → e.owner = some named)
    (hnot : owner ∉ woken [e]) (hnamed : r.named? child = some owner) :
    ¬(kind = .workItem ∧ key = child) := by
  rintro ⟨rfl, rfl⟩
  apply hnot
  have hindexed : (r.remove .workItem key).2 = some owner := (hr.owners key).trans hnamed
  have hschedule : e.schedule? = some owner := by
    unfold Event.schedule?
    cases ho : e.object with
    | schedule s => simp [ho, Object.kind] at hobject
    | workItem w => exact howner owner hindexed
  unfold woken
  rw [List.filterMap_cons, hschedule]
  exact List.mem_cons_self

lemma remove_untold (hother : ∀ child, r.named? child = some owner → ¬(kind = .workItem ∧ key = child)) :
    r.Untold (r.remove kind key).1 owner := by
  constructor
  · intro child hchild
    unfold named? at hchild
    rw [remove_workItems] at hchild ⊢
    split_ifs at hchild ⊢
    · simp at hchild
    · rfl
  · intro child hchild
    left
    rw [remove_workItems, if_neg (hother child hchild)]

lemma dropAll_cons (r : Replica) (o : Object) (os : List Object) :
    r.dropAll (o :: os) = (((r.remove o.kind o.key).1.dropAll os).1,
      .deleted o true (r.remove o.kind o.key).2 :: ((r.remove o.kind o.key).1.dropAll os).2) := rfl

lemma dropAll_workItems (r : Replica) (os : List Object) (child : Key) :
    (r.dropAll os).1.objects.workItems[child]? =
      if Under os .workItem child then none else r.objects.workItems[child]? := by
  have hget := dropAll_get? r os .workItem child
  rw [Listing.get?_workItem, Listing.get?_workItem] at hget
  split_ifs at hget ⊢
  · exact Option.map_eq_none_iff.1 hget
  · exact Option.map_injective (fun _ _ => Object.workItem.inj) hget

/-- What is dropped was no child of a schedule that is not told. -/
theorem dropAll_named (hr : r.Indexed) (hnot : owner ∉ woken (r.dropAll os).2)
    (hnamed : r.named? child = some owner) :
    (r.dropAll os).1.objects.workItems[child]? = r.objects.workItems[child]? := by
  induction os generalizing r with
  | nil => rfl
  | cons o os ih =>
    have hsplit : woken (r.dropAll (o :: os)).2 =
        woken [.deleted o true (r.remove o.kind o.key).2] ++
          woken ((r.remove o.kind o.key).1.dropAll os).2 := woken_append [_] _
    rw [hsplit, List.mem_append, not_or] at hnot
    have hother : ¬(o.kind = .workItem ∧ o.key = child) :=
      remove_named (e := .deleted o true _) hr rfl (fun _ h => h) hnot.1 hnamed
    have hkept : (r.remove o.kind o.key).1.objects.workItems[child]? = r.objects.workItems[child]? := by
      rw [remove_workItems, if_neg hother]
    rw [dropAll_cons, ← hkept]
    exact ih (hr.remove o.kind o.key) hnot.2 (named?_eq hkept ▸ hnamed)

/-! ## News -/

lemma replace_untold (hr : r.Indexed) {version : Nat} (hnot : owner ∉ woken (r.replace os version).2) :
    r.Untold (r.replace os version).1 owner := by
  let lost := (r.learnAll os).1.objects.toList.filter fun o =>
    !os.any fun p => p.kind == o.kind && p.key == o.key
  have hreplace : ∀ child : Key, (r.replace os version).1.objects.workItems[child]? =
      ((r.learnAll os).1.dropAll lost).1.objects.workItems[child]? := fun _ => rfl
  have hsplit : woken (r.replace os version).2 =
      woken (r.learnAll os).2 ++ woken ((r.learnAll os).1.dropAll lost).2 := woken_append _ _
  rw [hsplit, List.mem_append, not_or] at hnot
  obtain ⟨hnew, hold⟩ := learnAll_untold hnot.1
  have hdropped : ∀ child, (r.learnAll os).1.named? child = some owner →
      (r.replace os version).1.objects.workItems[child]? = (r.learnAll os).1.objects.workItems[child]? :=
    fun child hchild => dropAll_named (hr.learnAll os) hnot.2 hchild
  constructor
  · intro child hchild
    -- what is there in the end was learned
    have hlearned : (r.replace os version).1.objects.workItems[child]? =
        (r.learnAll os).1.objects.workItems[child]? := by
      have hkept := dropAll_workItems (r.learnAll os).1 lost child
      unfold named? at hchild
      rw [hreplace, hkept] at hchild ⊢
      split_ifs at hchild ⊢
      · simp at hchild
      · rfl
    rw [hlearned]
    exact hnew child (named?_eq hlearned ▸ hchild)
  · intro child hchild
    obtain hsame | ⟨-, w, hw, hleft⟩ := hold child hchild
    · left
      rw [hdropped child (named?_eq hsame ▸ hchild), hsame]
    · by_cases hlisted : Under os .workItem child
      · -- what is listed is not dropped
        refine .inr ⟨hchild, w, ?_, hleft⟩
        rw [hreplace, dropAll_workItems, if_neg, hw]
        rintro ⟨o, ho, hkind, hkey⟩
        obtain ⟨p, hp, hpkind, hpkey⟩ := hlisted
        have hany := (List.mem_filter.1 ho).2
        simp only [Bool.not_eq_true', List.any_eq_false, Bool.and_eq_true, beq_iff_eq, not_and] at hany
        exact hany p hp (hpkind.trans hkind.symm) (hpkey.trans hkey.symm)
      · rw [learnAll_unlisted hlisted] at hw
        unfold named? at hchild
        rw [hw] at hchild
        exact absurd hchild hleft

lemma apply_untold (hr : r.Indexed) {c : Change} (hnot : owner ∉ woken (r.apply c).2) :
    r.Untold (r.apply c).1 owner := by
  have hupsert : ∀ (e : Event) (version : Nat), e.object = c.object → e.owner = (r.upsert c.object).2 →
      owner ∉ woken [e] → r.Untold { (r.upsert c.object).1 with lastSeen := version } owner :=
    fun e version hobject howner hnot => (upsert_untold hobject howner hnot).of_objects rfl
  unfold apply at hnot ⊢
  dsimp only at hnot ⊢
  split_ifs at hnot ⊢ with hstale
  · exact (Untold.refl r owner).of_objects rfl
  · cases htype : c.type with
    | added | modified =>
      rw [htype] at hnot
      refine hupsert _ _ ?_ ?_ hnot
      · cases r.get? c.object.kind c.object.key <;> rfl
      · cases r.get? c.object.kind c.object.key <;> rfl
    | deleted =>
      rw [htype] at hnot
      have hother : ∀ child, r.named? child = some owner →
          ¬(c.object.kind = .workItem ∧ c.object.key = child) := by
        refine fun child hchild => remove_named (e := .deleted c.object false _) hr rfl ?_ hnot hchild
        intro named hindexed
        exact congrArg (Option.orElse · _) hindexed
      refine (remove_untold fun child hchild => hother child hchild).of_objects rfl

theorem take_untold (hr : r.Indexed) (hnot : owner ∉ woken (r.take news).2) :
    r.Untold (r.take news).1 owner := by
  cases news with
  | listing objects version => exact replace_untold hr hnot
  | change c => exact apply_untold hr hnot

/-- The work items that name a schedule tell its children. -/
lemma Indexed.childrenOf_congr (h : r.Indexed) (h' : later.Indexed)
    (hitems : ∀ child, r.named? child = some owner ∨ later.named? child = some owner →
      later.objects.workItems[child]? = r.objects.workItems[child]?) :
    later.childrenOf owner = r.childrenOf owner := by
  have hmem : ∀ (m : Replica) (child : Key), m.Indexed →
      (child ∈ m.childSet owner ↔ m.named? child = some owner) := by
    intro m child hm
    rw [hm.linked, hm.owners]
    rfl
  have hsets : later.childSet owner = r.childSet owner := by
    apply Std.ExtTreeSet.ext_mem
    intro child
    rw [hmem later child h', hmem r child h]
    constructor
    · exact fun hchild => named?_eq (hitems child (.inr hchild)) ▸ hchild
    · exact fun hchild => (named?_eq (hitems child (.inl hchild))).trans hchild
  unfold childrenOf
  rw [childKeys_eq, childKeys_eq, hsets]
  apply List.filterMap_congr
  intro child hchild
  exact hitems child (.inl ((hmem r child h).1 (Std.ExtTreeSet.mem_toList.1 hchild)))

/-- News wakes each schedule whose children become different, except one that work items leave: it is woken only
for another reason. Such a schedule gets no children and loses no others, and the schedule that they name then is
woken. -/
theorem take_wakes (h : Fed r) (news : News) (q : WorkQueue Key) (owner : Key) :
    (r.take news).2.foldl WorkQueue.enqueueOwner q =
        (woken (r.take news).2).foldl (fun q key => (q.add key).1) q ∧
      ((r.take news).1.childrenOf owner ≠ r.childrenOf owner →
        owner ∈ woken (r.take news).2 ∨ ∃ child, r.Leaves (r.take news).1 owner child) ∧
      (owner ∉ woken (r.take news).2 →
        (∀ w ∈ (r.take news).1.childrenOf owner, w ∈ r.childrenOf owner) ∧
          ∀ w ∈ r.childrenOf owner, w ∈ (r.take news).1.childrenOf owner ∨
            ∃ (child : Key) (v : WorkItem), r.objects.workItems[child]? = some w ∧
              (r.take news).1.objects.workItems[child]? = some v ∧ v.ownerKey ≠ some owner ∧
              ∀ other, v.ownerKey = some other → other ∈ woken (r.take news).2) := by
  have hr : r.Indexed := h.indexed
  have hlater : (r.take news).1.Indexed := (h.take news).indexed
  refine ⟨enqueue_eq q _, fun hdiffer => ?_, fun hnot => ?_⟩
  · by_contra hnone
    rw [not_or, not_exists] at hnone
    obtain ⟨hnew, hold⟩ := take_untold hr hnone.1
    apply hdiffer
    refine hr.childrenOf_congr hlater fun child hchild => ?_
    obtain hchild | hchild := hchild
    · exact (hold child hchild).resolve_right (hnone.2 child)
    · exact hnew child hchild
  · obtain ⟨hnew, hold⟩ := take_untold hr hnot
    constructor
    · intro w hw
      obtain ⟨child, hchild, howner⟩ := hlater.mem_childrenOf.1 hw
      refine hr.mem_childrenOf.2 ⟨child, ?_, howner⟩
      rw [← hnew child (by unfold named?; rw [hchild]; exact howner), hchild]
    · intro w hw
      obtain ⟨child, hchild, howner⟩ := hr.mem_childrenOf.1 hw
      obtain hsame | ⟨-, v, hv, hleft⟩ := hold child (by unfold named?; rw [hchild]; exact howner)
      · exact .inl (hlater.mem_childrenOf.2 ⟨child, hsame.trans hchild, howner⟩)
      · refine .inr ⟨child, v, hchild, hv, hleft, fun other hother => ?_⟩
        -- the schedule that is named now got a child
        by_contra huntold
        have hgot := (take_untold hr huntold).new child (by unfold named?; rw [hv]; exact hother)
        rw [hv, hchild] at hgot
        exact hleft (Option.some.inj hgot ▸ howner)

/-- A work item that names a schedule, or none. -/
def naming (schedule : Option String) (version : Nat) : WorkItem where
  metadata := { Meta.new "jobs" "tick-60" .blank with
    version
    owners := schedule.toList.map fun name => ⟨Kind.schedule.name, name, .ofNat 0, true⟩ }
  spec := .bool true
  status := .initial

def tickKey : Key := ⟨"jobs", "tick"⟩

/-- A replica that has listed a child of one schedule. -/
def withChild : Replica :=
  (empty.take (.listing [.workItem (naming (some "tick") 1)] 1)).1

/-- The first listing of a child wakes the schedule that it names and leaves the others alone. -/
theorem take_wakes_listed :
    Fed empty ∧ withChild.childrenOf tickKey ≠ empty.childrenOf tickKey ∧
      tickKey ∈ woken (empty.take (.listing [.workItem (naming (some "tick") 1)] 1)).2 ∧
      ∀ w ∈ withChild.childrenOf ⟨"jobs", "tock"⟩, w ∈ empty.childrenOf ⟨"jobs", "tock"⟩ := by
  have hdiffer : withChild.childrenOf tickKey ≠ empty.childrenOf tickKey := by decide +kernel
  have hnot : ⟨"jobs", "tock"⟩ ∉ woken (empty.take (.listing [.workItem (naming (some "tick") 1)] 1)).2 := by
    decide +kernel
  have htick := (take_wakes .start (.listing [.workItem (naming (some "tick") 1)] 1)
    (.new BackoffPolicy.standard) tickKey).2.1 hdiffer
  have htock := ((take_wakes .start (.listing [.workItem (naming (some "tick") 1)] 1)
    (.new BackoffPolicy.standard) ⟨"jobs", "tock"⟩).2.2 hnot).1
  refine ⟨.start, hdiffer, htick.resolve_right ?_, htock⟩
  rintro ⟨child, hnamed, -⟩
  simp [named?, empty, Listing.empty] at hnamed

/-- A child that is listed anew under another schedule, or that is changed to name none, leaves its schedule without
waking it. -/
theorem take_leaves_asleep :
    Fed withChild ∧ ∀ news ∈ [News.listing [.workItem (naming (some "tock") 3)] 3,
        .change ⟨.modified, .workItem (naming none 2)⟩],
      (withChild.take news).1.childrenOf tickKey ≠ withChild.childrenOf tickKey ∧
        tickKey ∉ woken (withChild.take news).2 := by
  refine ⟨.take .start _, fun news hnews => ?_⟩
  simp only [List.mem_cons, List.not_mem_nil, or_false] at hnews
  obtain rfl | rfl := hnews
  · decide +kernel
  · decide +kernel

end Replica

end Timetable
