import Timetable.Proofs.Controller.Activity

/-!
# When a pass launches

A pass launches at most one work item, and only when no active child is left: under `Forbid` it has seen none,
under `Replace` it has deleted those that it has seen. What others do in between does not matter as long as
they make no child active.
-/

namespace Timetable

/-- Only deletions of work items are asked for. -/
def Request.Deletes : Request → Prop
  | .deleteWorkItem _ => True
  | _ => False

namespace Client
variable {α β : Type} {policy : Concurrency} {owner : Key} {left less : Set Key} {c : Client α}

/-- A client writes no status, and creates one work item at most, for the owner, when none of the keys is left.
Deletions take away keys under `Replace`, where they do not fail. -/
def Paced (policy : Concurrency) (owner : Key) : Client α → Set Key → Prop
  | done _, _ => True
  | listItems next, left => ∀ items, (next items).Paced policy owner left
  | writeScheduleStatus _ _, _ => False
  | createItem w next, left => left = ∅ ∧ w.ownerKey = some owner ∧ ∀ r, (next r).Every Request.Deletes
  | writeItemStatus _ _, _ => False
  | deleteItem key next, left =>
    ∀ r, (next r).Paced policy owner {other ∈ left | policy = .replace → other ≠ key}
  | readClock next, left => ∀ now, (next now).Paced policy owner left
  | note _ next, left => next.Paced policy owner left

/-- What follows the write of a status is paced if the schedule stored has the key and the policy. -/
def PacedAfter (policy : Concurrency) (owner : Key) (left : Set Key) (y : Schedule) (c : Client α) : Prop :=
  y.metadata.key = owner → y.spec.concurrency = policy → c.Paced policy owner left

lemma Paced.anti (h : c.Paced policy owner left) (hsub : less ⊆ left) : c.Paced policy owner less := by
  induction c generalizing left less with
  | done a => trivial
  | listItems next ih => exact fun items => ih items (h items) hsub
  | writeScheduleStatus x next ih => exact h
  | createItem w next ih =>
    obtain ⟨rfl, howner, hrest⟩ := h
    exact ⟨Set.subset_empty_iff.1 hsub, howner, hrest⟩
  | writeItemStatus w next ih => exact h
  | deleteItem key next ih => exact fun r => ih r (h r) fun other ho => ⟨hsub ho.1, ho.2⟩
  | readClock next ih => exact fun now => ih now (h now) hsub
  | note r next ih => exact ih h hsub

/-- A client that only deletes may start whatever is left. -/
lemma Every.paced (h : c.Every Request.Deletes) : c.Paced policy owner left := by
  induction c generalizing left with
  | done a => trivial
  | listItems next ih => exact fun items => ih items (h items)
  | writeScheduleStatus x next ih => exact h.1
  | createItem w next ih => exact (h.1 .blank).elim
  | writeItemStatus w next ih => exact h.1
  | deleteItem key next ih => exact fun r => ih r (h.2 r)
  | readClock next ih => exact fun now => ih now (h now)
  | note r next ih => exact ih h

end Client

/-- The keys of the children in a view that are active. -/
def View.activeKeys (view : View) : Set Key :=
  {key | ∃ w ∈ (Buckets.ofItems view.children).active, w.metadata.key = key}

namespace Pass
variable {policy : Concurrency} {key owner : Key} {left : Set Key} {y : Schedule} {view : View}
  {active ws : List WorkItem} {fire : Instant} {wait : Action}

lemma noteAll_paced {α : Type} {notices : List Notice} {f : Unit → Client α}
    (hf : (f ()).Paced policy owner left) : ((noteAll key notices).andThen f).Paced policy owner left := by
  induction notices with
  | nil => exact hf
  | cons n notices ih => exact ih

/-- Once some work items are deleted, their keys are not left. -/
lemma deleteAll_paced {α : Type} {f : Unit → Client α}
    (hf : (f ()).Paced policy owner
      {other ∈ left | policy = .replace → ∀ w ∈ ws, w.metadata.key ≠ other}) :
    ((deleteAll key ws).andThen f).Paced policy owner left := by
  induction ws generalizing left with
  | nil => exact hf.anti fun other ho => ⟨ho, by simp⟩
  | cons w ws ih =>
    have hrest : ((deleteAll key ws).andThen f).Paced policy owner
        {other ∈ left | policy = .replace → other ≠ w.metadata.key} := by
      apply ih
      apply hf.anti
      rintro other ⟨⟨ho, hfirst⟩, hothers⟩
      refine ⟨ho, fun hreplace v hv => ?_⟩
      obtain rfl | hv := List.mem_cons.1 hv
      · exact (hfirst hreplace).symm
      · exact hothers hreplace v hv
    intro r
    dsimp only
    split
    · exact hrest
    · exact hrest
    · exact hrest

lemma launch_paced (hkey : y.metadata.key = owner) : (launch key y fire wait).Paced policy owner ∅ := by
  unfold launch
  split
  · trivial
  · rename_i w hw
    refine ⟨rfl, hkey ▸ WorkItem.ownerKey_of_template hw, fun r => ?_⟩
    dsimp only
    split
    · trivial
    · trivial
    · trivial

/-- Unless the policy allows overlaps, a fire is served when no active child is left. -/
lemma serve_paced (hpolicy : policy ≠ .allow) (hsame : y.spec.concurrency = policy)
    (hkey : y.metadata.key = owner) (hleft : ∀ other ∈ left, ∃ w ∈ active, w.metadata.key = other)
    (deadline : Option Int) (now : Instant) :
    (serve key y active fire deadline now wait).Paced policy owner left := by
  unfold serve
  rw [hsame]
  by_cases hlate : isLate fire deadline now
  · rw [if_pos hlate]
    trivial
  · rw [if_neg hlate]
    cases policy with
    | allow => exact absurd rfl hpolicy
    | forbid =>
      cases active with
      | nil =>
        have hnone : left ⊆ ∅ := fun other ho => by simpa using hleft other ho
        exact (launch_paced hkey).anti hnone
      | cons w active => trivial
    | replace =>
      apply deleteAll_paced
      apply (launch_paced hkey).anti
      rintro other ⟨ho, hdeleted⟩
      obtain ⟨w, hw, hother⟩ := hleft other ho
      exact hdeleted rfl w hw hother

lemma schedule_paced (hpolicy : policy ≠ .allow) (hsame : y.spec.concurrency = policy)
    (hkey : y.metadata.key = owner) (hleft : ∀ other ∈ left, ∃ w ∈ active, w.metadata.key = other)
    (cap : Nat) : (schedule cap key y active).Paced policy owner left := by
  unfold schedule
  by_cases hsuspend : y.spec.suspend
  · rw [if_pos hsuspend]
    trivial
  · rw [if_neg hsuspend]
    intro now
    dsimp only
    split
    · trivial
    · trivial
    · split
      · trivial
      · exact serve_paced hpolicy hsame hkey hleft _ _

/-- What a pass does once the status is written is paced by the active children that it has seen. -/
theorem settle_paced (hpolicy : policy ≠ .allow) (cap : Nat) (key owner : Key) (view : View) (y : Schedule) :
    (settle cap key view y).PacedAfter policy owner view.activeKeys y := by
  intro hkey hsame
  apply deleteAll_paced
  apply (schedule_paced hpolicy hsame hkey (fun other ho => ho) cap).anti
  exact fun other ho => ho.1

end Pass

/-! ## Calls of a paced client -/

/-- A paced client keeps the children of its owner in order. What is left covers the active ones at every
moment. -/
theorem Client.Paced.step {α : Type} {policy : Concurrency} {owner : Meta} {left : Set Key} {c : Client α}
    {site : Site} {stamp : Stamp} (h : c.Paced policy owner.key left)
    (hleft : site.store.activeKeys owner ⊆ left) (hkeyed : site.store.objects.Keyed)
    (hgoverned : site.store.Governed owner policy) (horderly : site.store.Orderly owner) :
    (c.step stamp site).2.store.Orderly owner ∧
      ∃ left', (c.step stamp site).2.store.activeKeys owner ⊆ left' ∧
        (c.step stamp site).1.Paced policy owner.key left' := by
  cases c with
  | done a => exact ⟨horderly, left, hleft, h⟩
  | listItems next => exact ⟨horderly, left, hleft, h _⟩
  | writeScheduleStatus x next => exact h.elim
  | createItem w next =>
    obtain ⟨rfl, howner, hrest⟩ := h
    exact ⟨horderly.createWorkItem hleft howner stamp, _, subset_rfl, (hrest _).paced⟩
  | writeItemStatus w next => exact h.elim
  | deleteItem key next =>
    have hwanes : Store.Wanes owner site.store (site.store.deleteWorkItem key).2 :=
      Store.deleteWorkItem_wanes site.store key
    refine ⟨horderly.wanes hwanes, _, ?_, h _⟩
    intro other ho
    refine ⟨hleft (hwanes.activeKeys_subset ho), ?_⟩
    rintro hreplace rfl
    exact Store.notMem_activeKeys_deleteWorkItem (hgoverned.deletes hreplace) hkeyed other ho
  | readClock next => exact ⟨horderly, left, hleft, h _⟩
  | note r next => exact ⟨horderly, left, hleft, h⟩

end Timetable
