import Timetable.Proofs.Store.Keeping

/-!
# The ledger of launches

What the launches so far have to do with the stores so far: every work item carries a launch, no launch
was made twice, and from its launch on a work item is there or its schedule has recorded a launch no
earlier.
-/

namespace Timetable

/-- The last launch of a schedule is no earlier than a fire. -/
def Store.Records (t : Store) (uid : Uid) (fire : Instant) : Prop :=
  ∃ x last, .schedule x ∈ t.objects ∧ x.metadata.uid = uid ∧
    x.status.lastScheduled = some last ∧ fire ≤ last

/-- A launch is accounted for: its work item is there, or its schedule has recorded one no earlier. -/
def Store.Accounts (t : Store) (key : Key) (uid : Uid) (fire : Instant) : Prop :=
  (∃ w, .workItem w ∈ t.objects ∧ w.metadata.key = key) ∨ t.Records uid fire

/-- What holds of the stores so far and of the launches, each as asked for and as stored. -/
structure Ledger (s : Store) (past : List Store) (launched : List (WorkItem × WorkItem)) : Prop where
  kept : ∀ x, Held (s :: past) x → ∃ y, .schedule y ∈ s.objects ∧ x.Continues y
  named : ∀ x, Held (s :: past) x → Name.validate x.metadata.name = .ok ()
  copies : ∀ t ∈ s :: past, ∀ w, .workItem w ∈ t.objects →
    ∃ e ∈ launched, e.2.Copies w ∧ e.2.metadata.version ≤ w.metadata.version
  made : ∀ e ∈ launched, e.1.Copies e.2 ∧
    ∃ x fire, Held (s :: past) x ∧ e.2.LaunchOf x.metadata.key x.metadata.uid fire
  once : launched.Pairwise fun e f => ∀ owner other uid fire, fire.InFourDigitYear →
    e.2.LaunchOf owner uid fire → ¬f.2.LaunchOf other uid fire
  covered : ∀ e ∈ launched, ∀ owner uid fire, fire.InFourDigitYear → e.2.LaunchOf owner uid fire →
    ∀ t ∈ s :: past, e.2.metadata.version ≤ t.version → t.Accounts e.2.metadata.key uid fire

namespace Ledger
variable {s t : Store} {past : List Store} {launched : List (WorkItem × WorkItem)}
  {e f : WorkItem × WorkItem} {v w : WorkItem} {owner other : Key} {uid : Uid} {fire : Instant}

lemma owner_eq (h : Ledger s past launched) (hl : Lineage (s :: past)) (he : e ∈ launched)
    (hlaunch : e.2.LaunchOf owner uid fire) {x : Schedule} (hx : Held (s :: past) x)
    (huid : x.metadata.uid = uid) : owner = x.metadata.key := by
  obtain ⟨-, y, fire', hy, hmade⟩ := h.made e he
  obtain ⟨rfl, rfl, -⟩ := hmade.unique hlaunch
  exact hl.key_eq hy hx huid.symm

/-- The key of a schedule tells its UID, since no schedule is deleted. -/
lemma uid_eq (h : Ledger s past launched) {x y : Schedule} (hx : Held (s :: past) x)
    (hy : Held (s :: past) y) (hkey : x.metadata.key = y.metadata.key) :
    x.metadata.uid = y.metadata.uid := by
  obtain ⟨x', hx', hxx⟩ := h.kept x hx
  obtain ⟨y', hy', hyy⟩ := h.kept y hy
  rw [Listing.mem_schedule, hxx.key, hkey] at hx'
  rw [Listing.mem_schedule, hyy.key] at hy'
  rw [hx'] at hy'
  rw [← hxx.uid, ← hyy.uid, Option.some.inj hy']

/-- What stands under the key of the child of a schedule for a fire was launched for them. -/
lemma launchOf_of_childKey (h : Ledger s past launched) {x : Schedule} (hx : Held (s :: past) x)
    (hwhole : fire.nano = 0) (ht : t ∈ s :: past) (hw : .workItem w ∈ t.objects)
    (hkey : w.metadata.key = WorkItem.childKey x.metadata.key fire) :
    w.LaunchOf x.metadata.key x.metadata.uid fire ∧
      ∃ f ∈ launched, f.2.LaunchOf x.metadata.key x.metadata.uid fire ∧ f.2.metadata.version ≤ w.metadata.version := by
  obtain ⟨f, hf, hcopies, hle⟩ := h.copies t ht w hw
  obtain ⟨-, y, fire', hy, hmade⟩ := h.made f hf
  obtain ⟨hyx, hfire⟩ :=
    hmade.eq_of_childKey hwhole (h.named y hy) (h.named x hx) (hcopies.key.symm.trans hkey)
  rw [hyx, h.uid_eq hy hx hyx, hfire] at hmade
  exact ⟨hmade.copies hcopies, f, hf, hmade, hle⟩

/-- A work item under the key of a launch was launched for the same schedule and the same fire. -/
lemma launchOf_of_key (h : Ledger s past launched) (he : e ∈ launched)
    (hlaunch : e.2.LaunchOf owner uid fire) (ht : t ∈ s :: past) (hw : .workItem w ∈ t.objects)
    (hkey : w.metadata.key = e.2.metadata.key) :
    w.LaunchOf owner uid fire ∧ ∃ f ∈ launched, f.2.LaunchOf owner uid fire ∧
      f.2.metadata.version ≤ w.metadata.version := by
  obtain ⟨-, x, fire', hx, hmade⟩ := h.made e he
  obtain ⟨rfl, rfl, rfl⟩ := hmade.unique hlaunch
  exact h.launchOf_of_childKey hx hmade.whole ht hw (hkey.trans hmade.key)

/-- There is one launch only of a schedule for a fire. -/
lemma eq_of_launchOf (h : Ledger s past launched) (he : e ∈ launched) (hf : f ∈ launched)
    (hy : fire.InFourDigitYear) (hlaunch : e.2.LaunchOf owner uid fire)
    (hlaunch' : f.2.LaunchOf other uid fire) : e = f := by
  by_contra hne
  have hsymm : Std.Symm fun e f : WorkItem × WorkItem => ∀ owner other uid fire,
      Instant.InFourDigitYear fire → e.2.LaunchOf owner uid fire → ¬f.2.LaunchOf other uid fire :=
    ⟨fun e f hef owner other uid fire hy hf he => hef other owner uid fire hy he hf⟩
  exact h.once.forall he hf hne owner other uid fire hy hlaunch hlaunch'

/-! ## Turns -/

lemma records_next (hl : Lineage (t :: s :: past)) (hk : s.KeepsSchedules t)
    (h : s.Records uid fire) : t.Records uid fire := by
  obtain ⟨x, last, hx, huid, hlast, hle⟩ := h
  obtain ⟨y, hy, hyx⟩ := hk.kept x hx
  have hxy := hl.descends (List.mem_cons_of_mem _ List.mem_cons_self) x y hx hy hyx.symm
  obtain ⟨last', hlast', hle'⟩ := hxy.last last hlast
  exact ⟨y, last', hy, hyx.trans huid, hlast', hle.trans hle'⟩

theorem turn (h : Ledger s past launched) (hl : Lineage (t :: s :: past)) (hk : s.KeepsSchedules t)
    (hcopies : ∀ w, .workItem w ∈ t.objects →
      ∃ e ∈ launched, e.2.Copies w ∧ e.2.metadata.version ≤ w.metadata.version)
    (hitems : ∀ e ∈ launched, ∀ owner uid fire, fire.InFourDigitYear →
      e.2.LaunchOf owner uid fire → (∃ w, .workItem w ∈ s.objects ∧ w.metadata.key = e.2.metadata.key) →
        t.Accounts e.2.metadata.key uid fire)
    (hnew : ∀ e ∈ launched, s.version < e.2.metadata.version →
      ∃ w, .workItem w ∈ t.objects ∧ w.metadata.key = e.2.metadata.key) :
    Ledger t (s :: past) launched := by
  have hs : s ∈ s :: past := List.mem_cons_self
  have hheld : ∀ x, Held (t :: s :: past) x → .schedule x ∈ t.objects ∨ Held (s :: past) x := by
    rintro x ⟨u, hu, hx⟩
    obtain rfl | hu := List.mem_cons.1 hu
    · exact Or.inl hx
    · exact Or.inr ⟨u, hu, hx⟩
  constructor
  · intro x hx
    obtain hx | hx := hheld x hx
    · exact ⟨x, hx, Schedule.Continues.refl x⟩
    · obtain ⟨y, hy, hxy⟩ := h.kept x hx
      obtain ⟨z, hz, hzy⟩ := hk.kept y hy
      exact ⟨z, hz, hxy.trans (hl.descends (List.mem_cons_of_mem _ hs) y z hy hz hzy.symm)⟩
  · intro x hx
    obtain hx | hx := hheld x hx
    · obtain ⟨y, hy, hname⟩ | hvalid := hk.named x hx
      · exact hname ▸ h.named y ⟨s, hs, hy⟩
      · exact hvalid
    · exact h.named x hx
  · intro u hu
    obtain rfl | hu := List.mem_cons.1 hu
    · exact hcopies
    · exact h.copies u hu
  · intro e he
    obtain ⟨hcopy, x, fire, hx, hmade⟩ := h.made e he
    exact ⟨hcopy, x, fire, hx.mono (List.subset_cons_self _ _), hmade⟩
  · exact h.once
  · intro e he owner uid fire hy hlaunch u hu hle
    obtain rfl | hu := List.mem_cons.1 hu
    · by_cases hold : e.2.metadata.version ≤ s.version
      · obtain hitem | hrecord := h.covered e he owner uid fire hy hlaunch s hs hold
        · exact hitems e he owner uid fire hy hlaunch hitem
        · exact Or.inr (records_next hl hk hrecord)
      · exact Or.inl (hnew e he (Nat.lt_of_not_le hold))
    · exact h.covered e he owner uid fire hy hlaunch u hu hle

theorem quiet (h : Ledger s past launched) (hl : Lineage (t :: s :: past)) (hk : s.KeepsSchedules t)
    (hi : s.KeepsItems t) (hbound : ∀ e ∈ launched, e.2.metadata.version ≤ s.version) :
    Ledger t (s :: past) launched := by
  refine h.turn hl hk ?_ ?_ ?_
  · intro w hw
    obtain ⟨v, hv, hcopies, hle⟩ := hi.old w hw
    obtain ⟨e, he, hev, hle'⟩ := h.copies s List.mem_cons_self v hv
    exact ⟨e, he, hev.trans hcopies, hle'.trans hle⟩
  · rintro e he owner uid fire hy hlaunch ⟨v, hv, hkey⟩
    obtain ⟨w, hw, hwv⟩ := hi.kept v hv
    exact Or.inl ⟨w, hw, hwv.trans hkey⟩
  · intro e he hlt
    exact absurd (hbound e he) (Nat.not_le_of_lt hlt)

/-- A work item of a version to come is entered if its schedule was not launched for its fire before. -/
theorem enter (h : Ledger s past launched) (hc : Chronicle (s :: past))
    (hversion : s.version < e.2.metadata.version) (hcopy : e.1.Copies e.2) {x : Schedule}
    (hx : Held (s :: past) x) (hmade : e.2.LaunchOf x.metadata.key x.metadata.uid fire)
    (hfirst : fire.InFourDigitYear → ∀ f ∈ launched, ∀ owner, ¬f.2.LaunchOf owner x.metadata.uid fire) :
    Ledger s past (e :: launched) := by
  constructor
  · exact h.kept
  · exact h.named
  · intro t ht w hw
    obtain ⟨f, hf, hcopies⟩ := h.copies t ht w hw
    exact ⟨f, List.mem_cons_of_mem _ hf, hcopies⟩
  · intro f hf
    obtain rfl | hf := List.mem_cons.1 hf
    · exact ⟨hcopy, x, fire, hx, hmade⟩
    · exact h.made f hf
  · refine List.Pairwise.cons ?_ h.once
    intro f hf owner other uid fire' hy hlaunch hother
    obtain ⟨rfl, rfl, rfl⟩ := hmade.unique hlaunch
    exact hfirst hy f hf other hother
  · intro f hf owner uid fire' hy hlaunch t ht hle
    obtain rfl | hf := List.mem_cons.1 hf
    · have hpast := hc.version_le_head ht
      omega
    · exact h.covered f hf owner uid fire' hy hlaunch t ht hle

theorem create (h : Ledger s past (e :: launched)) (hl : Lineage (t :: s :: past))
    (hput : t.objects = s.objects.put (.workItem e.2))
    (hfree : s.objects.workItems[e.2.metadata.key]? = none)
    (hbound : ∀ f ∈ launched, f.2.metadata.version ≤ s.version) :
    Ledger t (s :: past) (e :: launched) := by
  refine h.turn hl (Store.keepsSchedules_of_put_workItem hput) ?_ ?_ ?_
  · intro w hw
    rw [hput] at hw
    obtain hw | hw := Listing.mem_put hw
    · rw [Object.workItem.inj hw]
      exact ⟨e, List.mem_cons_self, WorkItem.Copies.refl _, le_rfl⟩
    · exact h.copies s List.mem_cons_self w hw
  · rintro f hf owner uid fire hy hlaunch ⟨v, hv, hkey⟩
    exact Or.inl ⟨v, Store.kept_of_put_workItem hput hfree v hv, hkey⟩
  · intro f hf hlt
    obtain rfl | hf := List.mem_cons.1 hf
    · exact ⟨f.2, Store.mem_of_put_workItem hput, rfl⟩
    · exact absurd (hbound f hf) (Nat.not_le_of_lt hlt)

/-- A turn that deletes a work item whose schedule has recorded a launch no earlier than its fire. -/
theorem delete (h : Ledger s past launched) (hl : Lineage (t :: s :: past)) {key : Key}
    (herase : t.objects = s.objects.erase .workItem key)
    (hrecorded : ∀ e ∈ launched, ∀ owner uid fire, fire.InFourDigitYear → e.2.LaunchOf owner uid fire →
      e.2.metadata.key = key → s.Records uid fire)
    (hbound : ∀ e ∈ launched, e.2.metadata.version ≤ s.version) :
    Ledger t (s :: past) launched := by
  have hk := Store.keepsSchedules_of_erase_workItem herase
  refine h.turn hl hk ?_ ?_ ?_
  · intro w hw
    rw [herase] at hw
    exact h.copies s List.mem_cons_self w (Listing.mem_erase hw)
  · rintro e he owner uid fire hy hlaunch ⟨v, hv, hkey⟩
    by_cases hgone : e.2.metadata.key = key
    · exact Or.inr (records_next hl hk (hrecorded e he owner uid fire hy hlaunch hgone))
    · refine Or.inl ⟨v, ?_, hkey⟩
      rw [Listing.mem_workItem] at hv ⊢
      rw [herase, Store.workItems_erase, if_neg fun h => hgone (h.trans hkey).symm]
      exact hv
  · intro e he hlt
    exact absurd (hbound e he) (Nat.not_le_of_lt hlt)

end Ledger

end Timetable
