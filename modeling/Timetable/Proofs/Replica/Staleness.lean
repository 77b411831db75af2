import Mathlib.Data.List.MinMax
import Timetable.Proofs.Replica.Telling
import Timetable.Proofs.Store.Atomicity

/-!
# Old news

A replica that takes in a change again passes it over if it still holds the object: what it holds is at least as new. Of
an object that is gone it holds nothing to compare with. Then an old change is taken for a new one: it brings the object
back, or tells once more that it was deleted.
-/

namespace Timetable

/-- The latest change of the object of a kind and a key up to a version. -/
structure Latest (changes : List Change) (seen : Nat) (kind : Kind) (key : Key) (d : Change) : Prop where
  mem : d ∈ changes
  was_seen : d.version ≤ seen
  same_kind : d.object.kind = kind
  same_key : d.object.key = key
  latest : ∀ c ∈ changes, c.version ≤ seen → c.object.kind = kind → c.object.key = key → c.version ≤ d.version

/-- The latest change of an object up to a version is its deletion. -/
def Gone (changes : List Change) (seen : Nat) (o : Object) : Prop :=
  ∃ d, Latest changes seen o.kind o.key d ∧ d.type = .deleted

section
variable {v seen : Nat} {c d : Change} {cs changes : List Change} {l : Listing} {kind : Kind} {key : Key}

lemma exists_latest_change (hc : c ∈ changes) (hseen : c.version ≤ seen) :
    ∃ d, Latest changes seen c.object.kind c.object.key d := by
  let own := changes.filter fun e =>
    decide (e.version ≤ seen ∧ e.object.kind = c.object.kind ∧ e.object.key = c.object.key)
  have hown : ∀ e, e ∈ own ↔
      e ∈ changes ∧ e.version ≤ seen ∧ e.object.kind = c.object.kind ∧ e.object.key = c.object.key := by
    intro e
    rw [List.mem_filter, decide_eq_true_eq]
  cases hd : own.argmax Change.version with
  | none =>
    have hempty := List.argmax_eq_none.1 hd
    exact absurd ((hown c).2 ⟨hc, hseen, rfl, rfl⟩) (hempty ▸ List.not_mem_nil)
  | some d =>
    obtain ⟨hmem, hdseen, hkind, hkey⟩ := (hown d).1 (List.argmax_mem hd)
    refine ⟨d, hmem, hdseen, hkind, hkey, fun e he heseen hekind hekey => ?_⟩
    exact List.le_of_mem_argmax ((hown e).2 ⟨he, heseen, hekind, hekey⟩) hd

/-! ## Replaying changes -/

lemma get?_replay_of_other (hother : ∀ c ∈ cs, ¬(c.object.kind = kind ∧ c.object.key = key)) :
    (cs.foldl Listing.apply l).get? kind key = l.get? kind key := by
  induction cs generalizing l with
  | nil => rfl
  | cons c cs ih =>
    rw [List.forall_mem_cons] at hother
    rw [List.foldl_cons, ih hother.2, Listing.get?_apply, if_neg hother.1]

/-- After changes that follow each other, the last one of an object tells what is there of it. -/
lemma Follow.get?_replay (h : Follow v cs) (hd : d ∈ cs)
    (hlast : ∀ c ∈ cs, c.object.kind = d.object.kind → c.object.key = d.object.key → c.version ≤ d.version) :
    (cs.foldl Listing.apply l).get? d.object.kind d.object.key =
      if d.type = .deleted then none else some d.object := by
  induction h generalizing l with
  | nil => simp at hd
  | @cons v first cs hfirst hcs ih =>
    rw [List.foldl_cons]
    obtain rfl | hd := List.mem_cons.1 hd
    · rw [get?_replay_of_other, Listing.get?_apply, if_pos ⟨rfl, rfl⟩]
      rintro c hc ⟨hkind, hkey⟩
      have hlate := hcs.lt_version hc
      have hle := hlast c (List.mem_cons_of_mem _ hc) hkind hkey
      omega
    · exact ih hd fun c hc => hlast c (List.mem_cons_of_mem _ hc)

end

/-- The schedule that an object names as its controller. -/
def Object.ownerKey : Object → Option Key
  | .schedule _ => none
  | .workItem w => w.ownerKey

namespace Replica
variable {r : Replica} {c : Change} {o : Object} {kind : Kind} {key : Key}

lemma upsert_snd (r : Replica) (o : Object) : (r.upsert o).2 = o.ownerKey := by
  cases o <;> rfl

/-- Nothing is lost by removing what is not there. -/
lemma Indexed.remove_absent (hr : r.Indexed) (hnone : r.get? kind key = none) : r.remove kind key = (r, none) := by
  have hobjects : r.objects.erase kind key = r.objects := by
    apply Listing.ext_get?
    intro other k
    rw [Listing.get?_erase]
    split_ifs with hsame
    · rw [← hsame.1, ← hsame.2]
      exact hnone.symm
    · rfl
  cases kind with
  | schedule =>
    unfold Replica.remove
    dsimp only
    rw [hobjects]
  | workItem =>
    have howner : r.owners[key]? = none := by
      have hitem : r.objects.workItems[key]? = none := Option.map_eq_none_iff.1 hnone
      rw [hr.owners, hitem, Option.bind_none]
    have hunindex : r.unindex key = r := by
      unfold Replica.unindex
      rw [howner]
    unfold Replica.remove
    dsimp only
    rw [hunindex, hobjects, howner]

/-- A change of an object that is not held is taken in. -/
lemma Indexed.apply_absent (hr : r.Indexed) (hnone : r.get? c.object.kind c.object.key = none)
    (hseen : c.version ≤ r.lastSeen) :
    r.apply c = if c.type = .deleted then (r, [.deleted c.object false c.object.ownerKey])
      else ((r.upsert c.object).1, [.added c.object c.object.ownerKey]) := by
  have hmax : max r.lastSeen c.version = r.lastSeen := max_eq_left hseen
  have hupsert : { (r.upsert c.object).1 with lastSeen := max (r.upsert c.object).1.lastSeen c.version } =
      (r.upsert c.object).1 := by
    rw [upsert_lastSeen, hmax, ← upsert_lastSeen r c.object]
  unfold Replica.apply
  dsimp only
  rw [hnone, if_neg (by simp)]
  cases c.type with
  | added =>
    dsimp only
    rw [hupsert, upsert_snd]
    rfl
  | modified =>
    dsimp only
    rw [hupsert, upsert_snd]
    rfl
  | deleted =>
    rw [hr.remove_absent hnone]
    dsimp only
    rw [hmax]
    cases c.object <;> rfl

/-- A change leaves other objects alone. -/
lemma apply_get?_of_other (r : Replica) (hother : ¬(c.object.kind = kind ∧ c.object.key = key)) :
    (r.apply c).1.get? kind key = r.get? kind key := by
  unfold apply
  dsimp only
  split_ifs
  · rfl
  · cases c.type with
    | added | modified =>
      change (r.upsert c.object).1.objects.get? kind key = _
      rw [upsert_objects, Listing.get?_put, if_neg hother]
      rfl
    | deleted =>
      change (r.remove c.object.kind c.object.key).1.objects.get? kind key = _
      rw [remove_objects, Listing.get?_erase, if_neg hother]
      rfl

lemma apply_passedOver (hheld : r.get? c.object.kind c.object.key = some o) (hold : c.version ≤ o.version)
    (hseen : c.version ≤ r.lastSeen) : r.apply c = (r, []) := by
  rw [apply_stale hheld hold, max_eq_left hseen]

end Replica

namespace Mirroring
variable {c : Mirroring} {r : Replica} {d e : Change} {es : List Change} {kind : Kind} {key : Key}

/-- The replica holds what the latest change that it has seen left. -/
lemma get?_of_latest (h : Reachable c)
    (hd : Latest (journal c.stores) c.reflector.replica.lastSeen kind key d) :
    c.reflector.replica.get? kind key = if d.type = .deleted then none else some d.object := by
  obtain ⟨hc, hf⟩ := faithful_of_reachable h
  obtain ⟨t, ht, hseen, hobjects⟩ := hf.past
  have hfollow : Follow 0 (journal c.stores) := hc.journal_follow.1
  have hrecent : ∀ e, e ∈ (journal c.stores).take t.version ↔
      e ∈ journal c.stores ∧ e.version ≤ c.reflector.replica.lastSeen := by
    intro e
    rw [hfollow.mem_take, Nat.zero_add, hseen]
  have hreplay := hc.replay_eq ht
  rw [hobjects] at hreplay
  unfold Replica.get?
  rw [← hreplay, ← hd.same_kind, ← hd.same_key]
  refine (hfollow.take _).get?_replay ((hrecent d).2 ⟨hd.mem, hd.was_seen⟩) fun e he hkind hkey => ?_
  obtain ⟨hmem, hle⟩ := (hrecent e).1 he
  exact hd.latest e hmem hle (hkind.trans hd.same_kind) (hkey.trans hd.same_key)

/-- What a replica at a version took in already. -/
def Old (c : Mirroring) (e : Change) : Prop :=
  e ∈ journal c.stores ∧ e.version ≤ c.reflector.replica.lastSeen

/-- The object of an old change is gone from the replica, or it is held as it became since. -/
lemma get?_of_old (h : Reachable c) (he : c.Old e) :
    (Gone (journal c.stores) c.reflector.replica.lastSeen e.object ∧
        c.reflector.replica.get? e.object.kind e.object.key = none) ∨
      ¬Gone (journal c.stores) c.reflector.replica.lastSeen e.object ∧
        ∃ o, c.reflector.replica.get? e.object.kind e.object.key = some o ∧ e.version ≤ o.version := by
  obtain ⟨d, hd⟩ := exists_latest_change he.1 he.2
  have hheld := get?_of_latest h hd
  by_cases hdeleted : d.type = .deleted
  · rw [if_pos hdeleted] at hheld
    exact .inl ⟨⟨d, hd, hdeleted⟩, hheld⟩
  · rw [if_neg hdeleted] at hheld
    refine .inr ⟨?_, d.object, hheld, hd.latest e he.1 he.2 rfl rfl⟩
    rintro ⟨d', hd', hdeleted'⟩
    have hnone := get?_of_latest h hd'
    rw [if_pos hdeleted', hheld] at hnone
    simp at hnone

/-- What is taken in again touches only objects that are gone. -/
structure Undisturbed (c : Mirroring) (r : Replica) : Prop where
  lastSeen : r.lastSeen = c.reflector.replica.lastSeen
  held : ∀ e, c.Old e → ¬Gone (journal c.stores) c.reflector.replica.lastSeen e.object →
    r.get? e.object.kind e.object.key = c.reflector.replica.get? e.object.kind e.object.key

lemma Undisturbed.passedOver (hr : c.Undisturbed r) (h : Reachable c) (he : c.Old e)
    (hthere : ¬Gone (journal c.stores) c.reflector.replica.lastSeen e.object) : r.apply e = (r, []) := by
  obtain ⟨hgone, -⟩ | ⟨-, o, ho, hle⟩ := get?_of_old h he
  · exact absurd hgone hthere
  · rw [← hr.held e he hthere] at ho
    exact Replica.apply_passedOver ho hle (hr.lastSeen ▸ he.2)

lemma Undisturbed.apply (hr : c.Undisturbed r) (h : Reachable c) (he : c.Old e) :
    c.Undisturbed (r.apply e).1 := by
  by_cases hgone : Gone (journal c.stores) c.reflector.replica.lastSeen e.object
  · constructor
    · rw [Replica.apply_lastSeen, hr.lastSeen, max_eq_left he.2]
    · intro e' he' hthere
      rw [Replica.apply_get?_of_other r, hr.held e' he' hthere]
      rintro ⟨hkind, hkey⟩
      exact hthere (by unfold Gone at hgone ⊢; rwa [← hkind, ← hkey])
  · rw [hr.passedOver h he hgone]
    exact hr

lemma Undisturbed.applyAll (hr : c.Undisturbed r) (h : Reachable c) (hes : ∀ e ∈ es, c.Old e) :
    c.Undisturbed (r.applyAll es).1 := by
  induction es generalizing r with
  | nil => exact hr
  | cons e es ih =>
    rw [List.forall_mem_cons] at hes
    exact ih (hr.apply h hes.1) hes.2

lemma applyAll_old_iff (h : Reachable c) (hes : ∀ e ∈ es, c.Old e) :
    c.reflector.replica.applyAll es = (c.reflector.replica, []) ↔
      ∀ e ∈ es, ¬Gone (journal c.stores) c.reflector.replica.lastSeen e.object := by
  have hsame : c.Undisturbed c.reflector.replica := ⟨rfl, fun _ _ _ => rfl⟩
  induction es with
  | nil => exact ⟨fun _ e he => absurd he List.not_mem_nil, fun _ => rfl⟩
  | cons e es ih =>
    rw [List.forall_mem_cons] at hes
    by_cases hgone : Gone (journal c.stores) c.reflector.replica.lastSeen e.object
    · obtain ⟨-, hnone⟩ | ⟨hthere, -⟩ := get?_of_old h hes.1
      · refine ⟨fun hquiet => ?_, fun hall => absurd hgone (hall e List.mem_cons_self)⟩
        -- the change of the object that is gone is told
        have hevents := congrArg Prod.snd hquiet
        have happly := (faithful_of_reachable h).2.indexed.apply_absent hnone hes.1.2
        unfold Replica.applyAll at hevents
        rw [happly] at hevents
        split_ifs at hevents <;> simp at hevents
      · exact absurd hgone hthere
    · have hrest : c.reflector.replica.applyAll (e :: es) = c.reflector.replica.applyAll es := by
        rw [Replica.applyAll, hsame.passedOver h hes.1 hgone]
        rfl
      rw [hrest, List.forall_mem_cons, and_iff_right hgone]
      exact ih hes.2

/-- Changes of the store that the replica has seen, taken in again in any order, change nothing and have no events if
and only if the replica last saw none of their objects deleted. Nor is any other change heeded after changes of objects
that are gone. But the first such change brings the object back as a new one, with its index entry, or has the event of
a deletion once more. -/
theorem old_news_told (h : Reachable c) :
    (∀ es, (∀ e ∈ es, c.Old e) → (c.reflector.replica.applyAll es = (c.reflector.replica, []) ↔
      ∀ e ∈ es, ¬Gone (journal c.stores) c.reflector.replica.lastSeen e.object)) ∧
    (∀ es e, (∀ d ∈ es, c.Old d) → c.Old e →
      ¬Gone (journal c.stores) c.reflector.replica.lastSeen e.object →
      (c.reflector.replica.applyAll es).1.apply e = ((c.reflector.replica.applyAll es).1, [])) ∧
    ∀ e, c.Old e → Gone (journal c.stores) c.reflector.replica.lastSeen e.object →
      c.reflector.replica.get? e.object.kind e.object.key = none ∧
      c.reflector.replica.apply e =
        if e.type = .deleted then (c.reflector.replica, [.deleted e.object false e.object.ownerKey])
        else ((c.reflector.replica.upsert e.object).1, [.added e.object e.object.ownerKey]) := by
  have hsame : c.Undisturbed c.reflector.replica := ⟨rfl, fun _ _ _ => rfl⟩
  refine ⟨fun es => applyAll_old_iff h, fun es e hes he hthere => ?_, fun e he hgone => ?_⟩
  · exact (hsame.applyAll h hes).passedOver h he hthere
  · obtain ⟨-, hnone⟩ | ⟨hthere, -⟩ := get?_of_old h he
    · exact ⟨hnone, (faithful_of_reachable h).2.indexed.apply_absent hnone he.2⟩
    · exact absurd hgone hthere

/-! ## Three changes of one schedule -/

/-- The schedule was created anew and the replica has seen this too. -/
def caughtUp : Mirroring := behind.advance

def created : Change := ⟨.added, .schedule (Store.lived 1 1)⟩

def deletion : Change := ⟨.deleted, .schedule (Store.lived 1 2)⟩

lemma caughtUp_reachable : Reachable caughtUp := behind_reachable.advance

lemma created_old : behind.Old created ∧ caughtUp.Old created ∧ caughtUp.Old deletion := by
  unfold Old
  decide +kernel

lemma created_gone : Gone (journal behind.stores) behind.reflector.replica.lastSeen created.object := by
  refine ⟨deletion, ⟨by decide +kernel, by decide +kernel, rfl, rfl, ?_⟩, rfl⟩
  decide +kernel

lemma created_there : ¬Gone (journal caughtUp.stores) caughtUp.reflector.replica.lastSeen created.object := by
  rintro ⟨d, hd, hdeleted⟩
  have hearly : ∀ e ∈ journal caughtUp.stores, e.type = .deleted → e.version ≤ 2 := by decide +kernel
  have hlate : ∃ e ∈ journal caughtUp.stores, e.version ≤ caughtUp.reflector.replica.lastSeen ∧
      e.object.kind = created.object.kind ∧ e.object.key = created.object.key ∧ 3 ≤ e.version := by
    decide +kernel
  obtain ⟨e, he, hseen, hkind, hkey, hthree⟩ := hlate
  have hbound := hd.latest e he hseen hkind hkey
  have hdeletion := hearly d hd.mem hdeleted
  omega

/-- While the schedule is gone, its creation that is told again creates it again. Once it is there anew, its first
creation and its deletion are passed over. -/
theorem old_news_told_lives :
    Reachable behind ∧ behind.Old created ∧
      behind.reflector.replica.apply created =
        ((behind.reflector.replica.upsert created.object).1, [.added created.object none]) ∧
      Reachable caughtUp ∧ caughtUp.Old created ∧ caughtUp.Old deletion ∧
      caughtUp.reflector.replica.applyAll [deletion, created, deletion] = (caughtUp.reflector.replica, []) := by
  obtain ⟨hbehind, hcreated, hdeletion⟩ := created_old
  obtain ⟨-, -, hback⟩ := old_news_told behind_reachable
  obtain ⟨hall, -⟩ := old_news_told caughtUp_reachable
  refine ⟨behind_reachable, hbehind, (hback _ hbehind created_gone).2, caughtUp_reachable, hcreated, hdeletion, ?_⟩
  refine (hall [deletion, created, deletion] ?_).2 ?_
  · simp [hcreated, hdeletion]
  · have hthere := created_there
    intro e he
    have hsame : e.object.kind = created.object.kind ∧ e.object.key = created.object.key := by
      simp only [List.mem_cons, List.not_mem_nil, or_false] at he
      rcases he with rfl | rfl | rfl <;> exact ⟨rfl, rfl⟩
    unfold Gone at hthere ⊢
    rwa [hsame.1, hsame.2]

/-- A change that the replica has seen makes it hold a schedule that it has seen deleted. -/
theorem old_news_revives : ∃ c e, Reachable c ∧ e ∈ journal c.stores ∧
    e.version ≤ c.reflector.replica.lastSeen ∧
    c.reflector.replica.objects.schedules[Schedule.minutely.metadata.key]? = none ∧
    (c.reflector.replica.apply e).1.objects.schedules[Schedule.minutely.metadata.key]? = some (Store.lived 1 1) ∧
    (c.reflector.replica.apply e).2 = [.added e.object none] := by
  obtain ⟨⟨hmem, hseen⟩, -, -⟩ := created_old
  exact ⟨behind, created, behind_reachable, hmem, hseen, by decide +kernel, by decide +kernel, by decide +kernel⟩

end Mirroring

end Timetable
