import Timetable.Proofs.Object.Children
import Timetable.Replica.Basic

/-!
# Launches

A work item keeps for good what it was launched with: its key, its owners and its annotations. They tell
the schedule that it was launched for and the fire.
-/

namespace Timetable.WorkItem
variable {v w : WorkItem} {owner other : Key} {uid uid' : Uid} {fire fire' : Instant}

/-- The key of the child of a schedule for a fire. -/
def childKey (owner : Key) (fire : Instant) : Key :=
  ⟨owner.space, childName owner.name fire⟩

/-- What the schedule of a key and a UID launches for a fire. -/
structure LaunchOf (owner : Key) (uid : Uid) (fire : Instant) (w : WorkItem) : Prop where
  key : w.metadata.key = ⟨owner.space, childName owner.name fire⟩
  owners : w.metadata.owners = [⟨Kind.schedule.name, owner.name, uid, true⟩]
  annotation : w.metadata.annotations[scheduledAt]? = some fire.renderSeconds
  whole : fire.nano = 0

structure Copies (v w : WorkItem) : Prop where
  key : w.metadata.key = v.metadata.key
  owners : w.metadata.owners = v.metadata.owners
  annotations : w.metadata.annotations = v.metadata.annotations

lemma Copies.refl (w : WorkItem) : w.Copies w := ⟨rfl, rfl, rfl⟩

lemma Copies.trans {u : WorkItem} (h : u.Copies v) (h' : v.Copies w) : u.Copies w :=
  ⟨h'.key.trans h.key, h'.owners.trans h.owners, h'.annotations.trans h.annotations⟩

lemma Copies.isControlledBy (h : v.Copies w) (m : Meta) :
    w.metadata.isControlledBy m = v.metadata.isControlledBy m := by
  have hspace : w.metadata.space = v.metadata.space := congrArg Key.space h.key
  unfold Meta.isControlledBy Meta.controller?
  rw [h.owners, hspace]

lemma Copies.ownerKey (h : v.Copies w) : w.ownerKey = v.ownerKey := by
  have hspace : w.metadata.space = v.metadata.space := congrArg Key.space h.key
  unfold WorkItem.ownerKey Meta.controller?
  rw [h.owners, hspace]

lemma LaunchOf.copies (h : v.LaunchOf owner uid fire) (hc : v.Copies w) : w.LaunchOf owner uid fire :=
  ⟨hc.key.trans h.key, hc.owners.trans h.owners, hc.annotations ▸ h.annotation, h.whole⟩

lemma launchOf_of_template {s : Schedule} (h : ofTemplate s fire = .ok w) (hwhole : fire.nano = 0) :
    w.LaunchOf s.metadata.key s.metadata.uid fire := by
  obtain ⟨hkey, howners, hannotation⟩ := ofTemplate_spec h
  exact ⟨hkey, howners, hannotation, hwhole⟩

lemma second_of_childName {name : String} (h : childName name fire = childName name fire') :
    fire.second = fire'.second := by
  have hlist := congrArg String.toList h
  rw [toList_childName, toList_childName] at hlist
  obtain ⟨hname, hdigits⟩ := Text.append_cons_inj_of_notMem (Text.dash_notMem_toDigits _)
    (Text.dash_notMem_toDigits _) hlist
  have habs := Text.toDigits_injective hdigits
  have hsign := List.append_cancel_left hname
  unfold secondSign at hsign
  split_ifs at hsign
  · omega
  · omega

lemma LaunchOf.instant_eq (h : v.LaunchOf owner uid fire) (h' : w.LaunchOf other uid' fire')
    (hsecond : fire.second = fire'.second) : fire = fire' :=
  Instant.ext hsecond (h.whole.trans h'.whole.symm)

/-- A work item tells what it was launched for. -/
theorem LaunchOf.unique (h : w.LaunchOf owner uid fire) (h' : w.LaunchOf other uid' fire') :
    owner = other ∧ uid = uid' ∧ fire = fire' := by
  have howners := h.owners.symm.trans h'.owners
  simp only [List.cons.injEq, OwnerReference.mk.injEq, true_and, and_true] at howners
  obtain ⟨hname, huid⟩ := howners
  have hkey := h.key.symm.trans h'.key
  obtain ⟨hspace, hchild⟩ := Key.mk.inj hkey
  rw [hname] at hchild
  have howner : owner = other := by
    cases owner
    cases other
    simp_all
  exact ⟨howner, huid, h.instant_eq h' (second_of_childName hchild)⟩

/-- What was launched and stands under the key of the child of a schedule for a fire was launched for them. -/
theorem LaunchOf.eq_of_childKey (h : v.LaunchOf owner uid fire) (hwhole : fire'.nano = 0)
    (hv : Name.validate owner.name = .ok ()) (hw : Name.validate other.name = .ok ())
    (hkey : v.metadata.key = childKey other fire') : owner = other ∧ fire = fire' := by
  rw [h.key] at hkey
  obtain ⟨hspace, hchild⟩ := Key.mk.inj hkey
  obtain ⟨hname, hsecond⟩ := childName_inj hv hw hchild
  have howner : owner = other := by
    cases owner
    cases other
    simp_all
  exact ⟨howner, Instant.ext hsecond (h.whole.trans hwhole.symm)⟩

lemma LaunchOf.scheduledTime (h : w.LaunchOf owner uid fire) (hy : fire.InFourDigitYear) :
    w.scheduledTime = .ok fire :=
  scheduledTime_of_annotation h.whole hy h.annotation

lemma LaunchOf.ownerKey (h : w.LaunchOf owner uid fire) : w.ownerKey = some owner := by
  have hspace : w.metadata.space = owner.space := congrArg Key.space h.key
  unfold WorkItem.ownerKey Meta.controller?
  rw [h.owners, hspace]
  simp [List.find?]

lemma ownerKey_of_template {s : Schedule} (h : ofTemplate s fire = .ok w) :
    w.ownerKey = some s.metadata.key := by
  obtain ⟨hkey, howners, -⟩ := ofTemplate_spec h
  have hspace : w.metadata.space = s.metadata.space := congrArg Key.space hkey
  unfold WorkItem.ownerKey Meta.controller?
  rw [howners, hspace]
  simp [Schedule.controllerReference, Meta.key, List.find?]

lemma LaunchOf.isControlledBy (h : w.LaunchOf owner uid fire) (m : Meta) :
    w.metadata.isControlledBy m = true ↔ uid = m.uid ∧ owner.space = m.space := by
  have hspace : w.metadata.space = owner.space := congrArg Key.space h.key
  unfold Meta.isControlledBy Meta.controller?
  rw [h.owners, hspace]
  simp [List.find?]

end Timetable.WorkItem
