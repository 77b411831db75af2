import Timetable.Proofs.Replica.Ownership

/-!
# What the events of a replica tell

Who follows the events of a replica from what it held before, one by one, has in the end what it holds. Each event fits
what was held when it is told, and its owner is the schedule that the work item is indexed under then.
-/

namespace Timetable

namespace Listing
variable {l : Listing}

/-- What an event makes of the objects that its reader has, if it fits them. -/
def follow? (l : Listing) : Event → Option Listing
  | .added o _ => if l.get? o.kind o.key = none then some (l.put o) else none
  | .updated old new _ => if l.get? new.kind new.key = some old then some (l.put new) else none
  | .deleted last _ _ => some (l.erase last.kind last.key)

/-- No two objects of a listing have the same kind and key. -/
lemma Keyed.pairwise_toList (h : l.Keyed) : l.toList.Pairwise fun o p => ¬(o.kind = p.kind ∧ o.key = p.key) := by
  unfold toList
  rw [List.pairwise_append]
  refine ⟨?_, ?_, ?_⟩
  · rw [List.pairwise_map]
    refine Std.ExtTreeMap.distinct_keys_toList.imp_of_mem fun {a b} ha hb hne => ?_
    rintro ⟨-, hsame⟩
    have hkey : a.1 = b.1 := by
      rw [← h.schedule_key (KeyMap.mem_toList.1 ha), ← h.schedule_key (KeyMap.mem_toList.1 hb)]
      exact hsame
    exact hne (Std.LawfulEqOrd.compare_eq_iff_eq.2 hkey)
  · rw [List.pairwise_map]
    exact (List.pairwise_map.1 h.nodup_items).imp fun hne hsame => hne hsame.2
  · intro o ho p hp
    obtain ⟨-, -, rfl⟩ := List.mem_map.1 ho
    obtain ⟨-, -, rfl⟩ := List.mem_map.1 hp
    exact fun hsame => nomatch hsame.1

lemma Keyed.nodup_toList (h : l.Keyed) : l.toList.Nodup :=
  h.pairwise_toList.imp fun hne hsame => hne ⟨congrArg Object.kind hsame, congrArg Object.key hsame⟩

end Listing

namespace Replica
variable {r next later : Replica} {o old : Object} {os : List Object} {e : Event} {events more : List Event}
  {owner : Option Key} {inferred : Bool}

/-- The owner of an event is the schedule that the work item is indexed under from then on. For a deletion it is the
one that it was indexed under before, or else the one that it names. Schedules have no owner. -/
def OwnerFits (r next : Replica) : Event → Prop
  | .added (.workItem w) owner | .updated _ (.workItem w) owner => owner = next.owners[w.metadata.key]?
  | .deleted (.workItem w) _ owner => owner = r.owners[w.metadata.key]?.or w.ownerKey
  | .added (.schedule _) owner | .updated _ (.schedule _) owner | .deleted (.schedule _) _ owner => owner = none

/-- An event tells how one replica becomes the next. -/
structure Passes (r : Replica) (e : Event) (next : Replica) : Prop where
  objects : r.objects.follow? e = some next.objects
  owner : r.OwnerFits next e
  indexed : next.Indexed

/-- Events tell, one after the other, how a replica becomes a later one. -/
inductive Tells : Replica → List Event → Replica → Prop
  | still (r : Replica) (version : Nat) : Tells r [] { r with lastSeen := version }
  | event {r next later : Replica} {e : Event} {events : List Event} (h : r.Passes e next)
      (rest : Tells next events later) : Tells r (e :: events) later

lemma Tells.refl (r : Replica) : r.Tells [] r :=
  .still r r.lastSeen

lemma Tells.single (h : r.Passes e next) : r.Tells [e] next :=
  .event h (.refl next)

lemma Tells.of_seen {version : Nat} (h : Tells { r with lastSeen := version } events later) :
    r.Tells events later := by
  generalize hm : { r with lastSeen := version } = m at h
  cases h with
  | still =>
    subst hm
    exact .still r _
  | event h rest =>
    subst hm
    exact .event ⟨h.objects, h.owner, h.indexed⟩ rest

lemma Tells.append (h : r.Tells events next) (h' : next.Tells more later) : r.Tells (events ++ more) later := by
  induction h with
  | still r version => exact h'.of_seen
  | event h _ ih => exact .event h (ih h')

lemma Tells.seen (h : r.Tells events next) (version : Nat) :
    r.Tells events { next with lastSeen := version } := by
  have hboth := h.append (.still next version)
  rwa [List.append_nil] at hboth

/-- Who follows the events has what the replica holds. -/
theorem Tells.follow (h : r.Tells events later) :
    events.foldlM Listing.follow? r.objects = some later.objects := by
  induction h with
  | still r version => rfl
  | event h _ ih => rw [List.foldlM_cons, h.objects, Option.bind_eq_bind, Option.bind_some, ih]

/-! ## Single writes and removals -/

lemma upsert_owner (r : Replica) (w : WorkItem) :
    (r.upsert (.workItem w)).2 = (r.upsert (.workItem w)).1.owners[w.metadata.key]? := by
  rw [upsert_workItem]
  exact (reindex_owners r w w.metadata.key).symm ▸ (if_pos rfl).symm

lemma Indexed.passes_added (hr : r.Indexed) (hnone : r.get? o.kind o.key = none) :
    r.Passes (.added o (r.upsert o).2) (r.upsert o).1 := by
  refine ⟨?_, ?_, hr.upsert o⟩
  · rw [upsert_objects]
    exact if_pos hnone
  · cases o with
    | schedule s => rfl
    | workItem w => exact upsert_owner r w

lemma Indexed.passes_updated (hr : r.Indexed) (hold : r.get? o.kind o.key = some old) :
    r.Passes (.updated old o (r.upsert o).2) (r.upsert o).1 := by
  refine ⟨?_, ?_, hr.upsert o⟩
  · rw [upsert_objects]
    exact if_pos hold
  · cases o with
    | schedule s => rfl
    | workItem w => exact upsert_owner r w

/-- The owner of a deletion when the object was held: the one that it was indexed under, which it names too. -/
lemma Indexed.remove_owner (hr : r.Indexed) {w : WorkItem} (hw : r.objects.workItems[w.metadata.key]? = some w) :
    (r.remove .workItem w.metadata.key).2 = r.owners[w.metadata.key]?.or w.ownerKey := by
  have hindexed : r.owners[w.metadata.key]? = w.ownerKey := by
    rw [hr.owners, hw, Option.bind_some]
  have hremoved : (r.remove .workItem w.metadata.key).2 = r.owners[w.metadata.key]? := rfl
  rw [hremoved, hindexed, Option.or_self]

lemma Indexed.passes_deleted (hr : r.Indexed)
    (howner : r.OwnerFits (r.remove o.kind o.key).1 (.deleted o inferred owner)) :
    r.Passes (.deleted o inferred owner) (r.remove o.kind o.key).1 :=
  ⟨congrArg some (remove_objects r o.kind o.key).symm, howner, hr.remove o.kind o.key⟩

lemma Indexed.passes_dropped (hr : r.Indexed) (ho : o ∈ r.objects) :
    r.Passes (.deleted o true (r.remove o.kind o.key).2) (r.remove o.kind o.key).1 := by
  refine hr.passes_deleted ?_
  cases o with
  | schedule s => rfl
  | workItem w =>
    rw [Listing.mem_def, Object.kind, Listing.get?_workItem, Option.map_eq_some_iff] at ho
    obtain ⟨v, hv, hsame⟩ := ho
    obtain rfl := Object.workItem.inj hsame
    exact hr.remove_owner hv

/-! ## News -/

lemma Indexed.learn_tells (hr : r.Indexed) (o : Object) : r.Tells (r.learn o).2 (r.learn o).1 := by
  unfold Replica.learn
  split
  · rename_i hnone
    exact .single (hr.passes_added hnone)
  · rename_i old hold
    split_ifs
    · exact .refl r
    · exact .single (hr.passes_updated hold)

lemma Indexed.learnAll_tells (hr : r.Indexed) (os : List Object) :
    r.Tells (r.learnAll os).2 (r.learnAll os).1 := by
  induction os generalizing r with
  | nil => exact .refl r
  | cons o os ih => exact (hr.learn_tells o).append (ih (hr.learn o))

/-- Objects that are held under different keys are told to be gone one by one, in any order. -/
lemma Indexed.dropAll_tells (hr : r.Indexed) (hheld : ∀ o ∈ os, o ∈ r.objects)
    (hdistinct : os.Pairwise fun o p => ¬(o.kind = p.kind ∧ o.key = p.key)) :
    r.Tells (r.dropAll os).2 (r.dropAll os).1 := by
  induction os generalizing r with
  | nil => exact .refl r
  | cons o os ih =>
    obtain ⟨hfirst, hrest⟩ := List.pairwise_cons.1 hdistinct
    have hkept : ∀ p ∈ os, p ∈ (r.remove o.kind o.key).1.objects := by
      intro p hp
      rw [remove_objects, Listing.mem_def, Listing.get?_erase, if_neg (hfirst p hp)]
      exact hheld p (List.mem_cons_of_mem o hp)
    exact .event (hr.passes_dropped (hheld o List.mem_cons_self))
      (ih (hr.remove o.kind o.key) hkept hrest)

/-- What is held once a listing is learned, but is not listed. -/
def missing (r : Replica) (os : List Object) : List Object :=
  (r.learnAll os).1.objects.toList.filter fun o => !os.any fun p => p.kind == o.kind && p.key == o.key

/-- What is missing may be dropped in any order. -/
lemma Fed.listing_tells (h : Fed r) {gone : List Object} (hgone : gone.Perm (r.missing os)) :
    r.Tells ((r.learnAll os).2 ++ ((r.learnAll os).1.dropAll gone).2) ((r.learnAll os).1.dropAll gone).1 := by
  have hlearned : (r.learnAll os).1.objects.Keyed :=
    learnAll_preserves (P := fun r => r.objects.Keyed) upsert_keyed h.keyed os
  refine (h.indexed.learnAll_tells os).append ((h.indexed.learnAll os).dropAll_tells ?_ ?_)
  · intro o ho
    exact hlearned.mem_toList.1 (List.mem_filter.1 (hgone.mem_iff.1 ho)).1
  · have hsymm : ∀ {o p : Object}, ¬(o.kind = p.kind ∧ o.key = p.key) → ¬(p.kind = o.kind ∧ p.key = o.key) :=
      fun hne hsame => hne ⟨hsame.1.symm, hsame.2.symm⟩
    exact (hgone.pairwise_iff hsymm).2 (hlearned.pairwise_toList.filter _)

lemma dropAll_objects_perm {gone lost : List Object} (h : gone.Perm lost) (r : Replica) :
    (r.dropAll gone).1.objects = (r.dropAll lost).1.objects := by
  apply Listing.ext_get?
  intro kind key
  have hunder : Under gone kind key ↔ Under lost kind key :=
    exists_congr fun o => and_congr_left fun _ => h.mem_iff
  rw [dropAll_get?, dropAll_get?]
  simp only [hunder]

lemma Fed.replace_tells (h : Fed r) (os : List Object) (version : Nat) :
    r.Tells (r.replace os version).2 (r.replace os version).1 :=
  (h.listing_tells (List.Perm.refl (r.missing os))).seen _

lemma apply_stale {c : Change} (hheld : r.get? c.object.kind c.object.key = some o) (hold : c.version ≤ o.version) :
    r.apply c = ({ r with lastSeen := max r.lastSeen c.version }, []) := by
  unfold apply
  dsimp only
  rw [hheld]
  exact if_pos (decide_eq_true hold)

lemma Indexed.apply_tells (hr : r.Indexed) (c : Change) : r.Tells (r.apply c).2 (r.apply c).1 := by
  unfold Replica.apply
  dsimp only
  split_ifs
  · exact .still r _
  · cases c.type with
    | added | modified =>
      refine (Tells.single ?_).seen _
      split
      · rename_i hnone
        exact hr.passes_added hnone
      · rename_i old hold
        exact hr.passes_updated hold
    | deleted =>
      refine (Tells.single (hr.passes_deleted ?_)).seen _
      cases c.object with
      | schedule s => rfl
      | workItem w => exact Option.or_eq_orElse.symm

theorem Fed.take_tells (h : Fed r) (news : News) : r.Tells (r.take news).2 (r.take news).1 := by
  cases news with
  | listing os version => exact h.replace_tells os version
  | change c => exact h.indexed.apply_tells c

/-! ## Redelivery -/

/-- Redelivered events tell that nothing changes, in any order. -/
lemma Fed.redelivered_tells (h : Fed r) (hevents : events ⊆ r.redeliver) : r.Tells events r := by
  induction events with
  | nil => exact .refl r
  | cons e events ih =>
    obtain ⟨he, hrest⟩ := List.cons_subset.1 hevents
    obtain ⟨o, ho, rfl⟩ := List.mem_map.1 he
    have hheld := h.keyed.mem_toList.1 ho
    refine .event ⟨?_, ?_, h.indexed⟩ (ih hrest)
    · rw [Listing.follow?, Listing.mem_def.1 hheld, if_pos rfl, Listing.put_of_mem hheld]
    · cases o with
      | schedule s => rfl
      | workItem w => rfl

lemma redeliver_objects (r : Replica) : r.redeliver.map Event.object = r.objects.toList := by
  unfold redeliver
  rw [List.map_map]
  exact List.map_id _

/-- The events of a listing or a change tell exactly what it makes of the objects held, each with the owner that fits,
also when what is missing in a listing is dropped in another order. News that is not newer than the object held has no
events. Redelivery tells of each object once that it stayed. -/
theorem events_tell_all (h : Fed r) :
    (∀ news : News, (r.take news).2.foldlM Listing.follow? r.objects = some (r.take news).1.objects ∧
        r.Tells (r.take news).2 (r.take news).1) ∧
      (∀ (os gone : List Object) (version : Nat), gone.Perm (r.missing os) →
        r.Tells ((r.learnAll os).2 ++ ((r.learnAll os).1.dropAll gone).2) ((r.learnAll os).1.dropAll gone).1 ∧
          ((r.learnAll os).1.dropAll gone).1.objects = (r.replace os version).1.objects) ∧
      (∀ (c : Change) (o : Object), r.get? c.object.kind c.object.key = some o → c.version ≤ o.version →
        r.take (.change c) = ({ r with lastSeen := max r.lastSeen c.version }, [])) ∧
      (∀ events : List Event, events.Perm r.redeliver →
        events.foldlM Listing.follow? r.objects = some r.objects ∧ r.Tells events r) ∧
      (r.redeliver.map Event.object).Nodup ∧ (∀ o, o ∈ r.redeliver.map Event.object ↔ o ∈ r.objects) ∧
      ∀ e ∈ r.redeliver, ∃ o owner, e = .updated o o owner := by
  refine ⟨fun news => ⟨(h.take_tells news).follow, h.take_tells news⟩, fun os gone version hgone => ?_,
    fun c o => apply_stale, fun events hevents => ?_, ?_, fun o => ?_, fun e he => ?_⟩
  · exact ⟨h.listing_tells hgone, dropAll_objects_perm hgone _⟩
  · have htells := h.redelivered_tells hevents.subset
    exact ⟨htells.follow, htells⟩
  · rw [redeliver_objects]
    exact h.keyed.nodup_toList
  · rw [redeliver_objects]
    exact h.keyed.mem_toList
  · obtain ⟨o, -, rfl⟩ := List.mem_map.1 he
    exact ⟨o, _, rfl⟩

/-- A listing that moves a child and a change that comes too late. -/
theorem events_tell_all_moved :
    Fed withChild ∧
      (withChild.take (.listing [.workItem (naming (some "tock") 3)] 3)).2.foldlM Listing.follow? withChild.objects =
        some (withChild.take (.listing [.workItem (naming (some "tock") 3)] 3)).1.objects ∧
      (withChild.take (.change ⟨.modified, .workItem (naming none 1)⟩)).2 = [] := by
  have hfed : Fed withChild := .take .start _
  obtain ⟨htell, -, hstale, -⟩ := events_tell_all hfed
  refine ⟨hfed, (htell _).1, ?_⟩
  have hheld : withChild.get? .workItem ⟨"jobs", "tick-60"⟩ = some (.workItem (naming (some "tick") 1)) := by
    decide +kernel
  rw [hstale ⟨.modified, .workItem (naming none 1)⟩ _ hheld (le_refl 1)]

end Replica
end Timetable
