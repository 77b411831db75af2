import Mathlib.Order.Nat
import Timetable.Proofs.Store.Listing
import Timetable.Replica.Basic

/-!
# What a replica holds

Taking in a listing makes a replica hold exactly the objects listed, and taking in a change makes it hold
what the store holds after the change. Objects are passed over by version, so both need that objects of
one version are equal.
-/

namespace Timetable.Replica
variable {r : Replica} {l : Listing} {o p : Object} {kind : Kind} {key : Key}

lemma unindex_objects (r : Replica) (child : Key) : (r.unindex child).objects = r.objects := by
  unfold unindex
  split
  · rfl
  · rfl

@[simp]
lemma upsert_objects (r : Replica) (o : Object) : (r.upsert o).1.objects = r.objects.put o := by
  unfold upsert
  cases o with
  | schedule s => rfl
  | workItem w =>
    dsimp only
    cases w.ownerKey with
    | none => simp only [unindex_objects]
    | some owner => simp only [index, unindex_objects]

@[simp]
lemma remove_objects (r : Replica) (kind : Kind) (key : Key) :
    (r.remove kind key).1.objects = r.objects.erase kind key := by
  unfold remove
  cases kind with
  | schedule => rfl
  | workItem => simp only [unindex_objects]

lemma unindex_lastSeen (r : Replica) (child : Key) : (r.unindex child).lastSeen = r.lastSeen := by
  unfold unindex
  split
  · rfl
  · rfl

@[simp]
lemma upsert_lastSeen (r : Replica) (o : Object) : (r.upsert o).1.lastSeen = r.lastSeen := by
  unfold upsert
  cases o with
  | schedule s => rfl
  | workItem w =>
    dsimp only
    cases w.ownerKey with
    | none => simp only [unindex_lastSeen]
    | some owner => simp only [index, unindex_lastSeen]

@[simp]
lemma remove_lastSeen (r : Replica) (kind : Kind) (key : Key) :
    (r.remove kind key).1.lastSeen = r.lastSeen := by
  unfold remove
  cases kind with
  | schedule => rfl
  | workItem => simp only [unindex_lastSeen]

/-! ## Listings -/

/-- Objects of a replica and a listing that have the same version are equal. -/
def Agrees (r : Replica) (l : Listing) : Prop :=
  ∀ o ∈ l, ∀ p, p ∈ r.objects ∨ p ∈ l → p.version = o.version → p = o

lemma learn_objects (hr : r.objects.Keyed) (hrl : r.Agrees l) (ho : o ∈ l) :
    (r.learn o).1.objects = r.objects.put o := by
  unfold learn
  split
  · exact upsert_objects r o
  · rename_i old hold
    split_ifs with hversion
    · have hmem : old ∈ r.objects := hr.mem hold
      rw [hrl o ho old (Or.inl hmem) hversion] at hmem
      exact (Listing.put_of_mem hmem).symm
    · exact upsert_objects r o

lemma learn_lastSeen (r : Replica) (o : Object) : (r.learn o).1.lastSeen = r.lastSeen := by
  unfold learn
  split
  · exact upsert_lastSeen r o
  · split_ifs
    · rfl
    · exact upsert_lastSeen r o

lemma Agrees.learn (hr : r.objects.Keyed) (hrl : r.Agrees l) (ho : o ∈ l) :
    (r.learn o).1.Agrees l := by
  intro q hq p hp hversion
  rw [learn_objects hr hrl ho] at hp
  obtain hp | hp := hp
  · obtain rfl | hp := Listing.mem_put hp
    · exact hrl q hq p (Or.inr ho) hversion
    · exact hrl q hq p (Or.inl hp) hversion
  · exact hrl q hq p (Or.inr hp) hversion

/-- One of some objects has the kind and the key. -/
def Under (os : List Object) (kind : Kind) (key : Key) : Prop :=
  ∃ o ∈ os, o.kind = kind ∧ o.key = key

instance (os : List Object) (kind : Kind) (key : Key) : Decidable (Under os kind key) :=
  inferInstanceAs (Decidable (∃ o ∈ os, o.kind = kind ∧ o.key = key))

lemma under_cons {os : List Object} :
    Under (o :: os) kind key ↔ (o.kind = kind ∧ o.key = key) ∨ Under os kind key := by
  simp only [Under, List.mem_cons, or_and_right, exists_or, exists_eq_left]

lemma learnAll_keyed {os : List Object} (hr : r.objects.Keyed) (hrl : r.Agrees l)
    (hos : ∀ o ∈ os, o ∈ l) : (r.learnAll os).1.objects.Keyed := by
  induction os generalizing r with
  | nil => exact hr
  | cons o os ih =>
    have ho := hos o List.mem_cons_self
    have hkeyed : (r.learn o).1.objects.Keyed := by
      rw [learn_objects hr hrl ho]
      exact hr.put o
    exact ih hkeyed (hrl.learn hr ho) fun q hq => hos q (List.mem_cons_of_mem o hq)

lemma learnAll_get? {os : List Object} (hr : r.objects.Keyed) (hrl : r.Agrees l)
    (hos : ∀ o ∈ os, o ∈ l) (kind : Kind) (key : Key) :
    (r.learnAll os).1.objects.get? kind key =
      if Under os kind key then l.get? kind key else r.objects.get? kind key := by
  induction os generalizing r with
  | nil => simp [learnAll, Under]
  | cons o os ih =>
    have ho := hos o List.mem_cons_self
    have hkeyed : (r.learn o).1.objects.Keyed := by
      rw [learn_objects hr hrl ho]
      exact hr.put o
    have hrest := ih hkeyed (hrl.learn hr ho) fun q hq => hos q (List.mem_cons_of_mem o hq)
    have hstep : (r.learnAll (o :: os)).1 = ((r.learn o).1.learnAll os).1 := rfl
    rw [hstep, hrest, learn_objects hr hrl ho, Listing.get?_put]
    by_cases hunder : Under os kind key
    · rw [if_pos hunder, if_pos (under_cons.2 (Or.inr hunder))]
    · rw [if_neg hunder]
      by_cases hkey : o.kind = kind ∧ o.key = key
      · rw [if_pos hkey, if_pos (under_cons.2 (Or.inl hkey)), ← hkey.1, ← hkey.2]
        exact ho.symm
      · rw [if_neg hkey, if_neg fun h => (under_cons.1 h).elim hkey hunder]

lemma learnAll_lastSeen (r : Replica) (os : List Object) : (r.learnAll os).1.lastSeen = r.lastSeen := by
  induction os generalizing r with
  | nil => rfl
  | cons o os ih => exact (ih (r.learn o).1).trans (learn_lastSeen r o)

lemma dropAll_get? (r : Replica) (os : List Object) (kind : Kind) (key : Key) :
    (r.dropAll os).1.objects.get? kind key =
      if Under os kind key then none else r.objects.get? kind key := by
  induction os generalizing r with
  | nil => simp [dropAll, Under]
  | cons o os ih =>
    have hstep : (r.dropAll (o :: os)).1 = ((r.remove o.kind o.key).1.dropAll os).1 := rfl
    rw [hstep, ih, remove_objects, Listing.get?_erase]
    by_cases hunder : Under os kind key
    · rw [if_pos hunder, if_pos (under_cons.2 (Or.inr hunder))]
    · rw [if_neg hunder]
      by_cases hkey : o.kind = kind ∧ o.key = key
      · rw [if_pos hkey, if_pos (under_cons.2 (Or.inl hkey))]
      · rw [if_neg hkey, if_neg fun h => (under_cons.1 h).elim hkey hunder]

lemma dropAll_lastSeen (r : Replica) (os : List Object) : (r.dropAll os).1.lastSeen = r.lastSeen := by
  induction os generalizing r with
  | nil => rfl
  | cons o os ih => exact (ih (r.remove o.kind o.key).1).trans (remove_lastSeen r o.kind o.key)

/-- Replacing makes a replica hold what was listed. -/
theorem replace_objects (hr : r.objects.Keyed) (hl : l.Keyed) (hrl : r.Agrees l) (version : Nat) :
    (r.replace l.toList version).1.objects = l := by
  have hos : ∀ o ∈ l.toList, o ∈ l := fun o ho => hl.mem_toList.1 ho
  have hkeyed := learnAll_keyed hr hrl hos
  have hlearn := learnAll_get? hr hrl hos
  apply Listing.ext_get?
  intro kind key
  have hunlisted : ¬Under l.toList kind key → l.get? kind key = none := by
    intro hnot
    cases hget : l.get? kind key with
    | none => rfl
    | some o =>
      exact absurd ⟨o, hl.mem_toList.2 (hl.mem hget), Listing.kind_of_get? hget, hl kind key o hget⟩ hnot
  unfold replace
  dsimp only
  rw [dropAll_get?, hlearn]
  by_cases hlisted : Under l.toList kind key
  · -- what was listed is not dropped
    rw [if_pos hlisted, if_neg]
    rintro ⟨o, ho, rfl, rfl⟩
    obtain ⟨p, hp, hkind, hkey⟩ := hlisted
    have hany := (List.mem_filter.1 ho).2
    simp only [Bool.not_eq_true', List.any_eq_false, Bool.and_eq_true, beq_iff_eq, not_and] at hany
    exact hany p hp hkind hkey
  · -- what was not listed is dropped or was not there
    rw [if_neg hlisted, hunlisted hlisted, ite_eq_left_iff]
    intro hkept
    cases hget : r.objects.get? kind key with
    | none => rfl
    | some o =>
      have hlearned : (r.learnAll l.toList).1.objects.get? kind key = some o := by
        rw [hlearn, if_neg hlisted, hget]
      have hmem := hkeyed.mem hlearned
      refine absurd ⟨o, List.mem_filter.2 ⟨hkeyed.mem_toList.2 hmem, ?_⟩, ?_⟩ hkept
      · simp only [Bool.not_eq_true', List.any_eq_false, Bool.and_eq_true, beq_iff_eq, not_and]
        intro p hp hkind hkey
        refine hlisted ⟨p, hp, ?_, ?_⟩
        · rw [hkind, Listing.kind_of_get? hget]
        · rw [hkey, hr kind key o hget]
      · exact ⟨Listing.kind_of_get? hget, hr kind key o hget⟩

lemma replace_lastSeen (r : Replica) (os : List Object) (version : Nat) :
    (r.replace os version).1.lastSeen = max r.lastSeen version := by
  unfold replace
  dsimp only
  rw [dropAll_lastSeen, learnAll_lastSeen]

/-! ## Changes -/

/-- A change newer than all objects held has its effect on them. -/
theorem apply_objects {c : Change} (hr : r.objects.Keyed)
    (hnew : ∀ o ∈ r.objects, o.version < c.version) :
    (r.apply c).1.objects = r.objects.apply c := by
  have hfresh : ¬(r.get? c.object.kind c.object.key).any (c.version ≤ ·.version) = true := by
    intro hany
    obtain ⟨o, ho, hle⟩ := (Option.any_eq_true _ _).1 hany
    have hlt := hnew o (hr.mem ho)
    have hge : c.version ≤ o.version := of_decide_eq_true hle
    omega
  unfold Replica.apply Listing.apply
  dsimp only
  rw [if_neg hfresh]
  cases c.type with
  | added => exact upsert_objects r c.object
  | modified => exact upsert_objects r c.object
  | deleted => exact remove_objects r c.object.kind c.object.key

lemma apply_lastSeen (r : Replica) (c : Change) :
    (r.apply c).1.lastSeen = max r.lastSeen c.version := by
  unfold Replica.apply
  dsimp only
  split_ifs
  · rfl
  · cases c.type with
    | added => exact congrArg (max · c.version) (upsert_lastSeen r c.object)
    | modified => exact congrArg (max · c.version) (upsert_lastSeen r c.object)
    | deleted => exact congrArg (max · c.version) (remove_lastSeen r c.object.kind c.object.key)

end Timetable.Replica
