import Mathlib.Data.List.Chain
import Timetable.Proofs.Store.Atomicity
import Timetable.Proofs.Store.Keeping

/-!
# Which work item stands under a key

From one store to the next a work item changes only by writes of its status and, when its schedule is deleted, in
its owners. It keeps its UID: another one takes its key only once the key is free. So what stands under a key is
the work item seen there before, unless the key was free in between.
-/

namespace Timetable

namespace Store
variable {s t : Store} {past : List Store} {type : ChangeType} {key : Key} {v w : WorkItem}
  {P Q : WorkItem → WorkItem → Prop}

/-- A work item that stands under a key after another one did is in a relation to it. -/
def Relates (s : Store) (P : WorkItem → WorkItem → Prop) (t : Store) : Prop :=
  ∀ (key : Key) (v w : WorkItem), s.objects.workItems[key]? = some v →
    t.objects.workItems[key]? = some w → P v w

/-- No work item takes the place of one with another UID. -/
def KeepsUids (s t : Store) : Prop :=
  ∀ (key : Key) (v w : WorkItem), s.objects.workItems[key]? = some v →
    t.objects.workItems[key]? = some w → w.metadata.uid = v.metadata.uid

/-- Each of some stores, the last one first, keeps the UIDs of the one before it. -/
def UidChain (stores : List Store) : Prop :=
  stores.IsChain fun t s => s.KeepsUids t

lemma UidChain.cons (h : UidChain (s :: past)) (ht : s.KeepsUids t) : UidChain (t :: s :: past) :=
  List.IsChain.cons_cons ht h

/-! ## Commits -/

lemma Relates.mono (h : s.Relates P t) (hPQ : ∀ v w, P v w → Q v w) : s.Relates Q t :=
  fun key v w hv hw => hPQ v w (h key v w hv hw)

lemma relates_of_eq (hrefl : ∀ v, P v v) (h : t.objects.workItems = s.objects.workItems) :
    s.Relates P t := by
  intro key v w hv hw
  rw [h, hv] at hw
  rw [← Option.some.inj hw]
  exact hrefl v

lemma SameData.relates (h : SameData t s) (hrefl : ∀ v, P v v) : s.Relates P t :=
  relates_of_eq hrefl (by rw [h.objects])

lemma relates_of_schedule (hrefl : ∀ v, P v v) {x : Schedule}
    (h : SameData t (s.commit type (.schedule x))) : s.Relates P t := by
  apply relates_of_eq hrefl
  rw [h.objects]
  cases type <;> rfl

/-- After a commit of a work item another one stands under a key only if it did before. -/
lemma workItem_of_commit (h : SameData t (s.commit type (.workItem w)))
    (hv : t.objects.workItems[key]? = some v) :
    (type ≠ .deleted ∧ w.metadata.key = key ∧
        v = { w with metadata := { w.metadata with version := s.version + 1 } }) ∨
      s.objects.workItems[key]? = some v := by
  let x : WorkItem := { w with metadata := { w.metadata with version := s.version + 1 } }
  have hput : (s.objects.put (.workItem x)).workItems[key]? = some v →
      w.metadata.key = key ∧ v = x ∨ s.objects.workItems[key]? = some v := by
    intro hv
    rw [workItems_put] at hv
    split_ifs at hv with hkey
    · exact Or.inl ⟨hkey, (Option.some.inj hv).symm⟩
    · exact Or.inr hv
  rw [h.objects] at hv
  cases type with
  | added => exact (hput hv).imp_left fun hplaced => ⟨by simp, hplaced⟩
  | modified => exact (hput hv).imp_left fun hplaced => ⟨by simp, hplaced⟩
  | deleted =>
    have herased : (s.objects.erase .workItem w.metadata.key).workItems[key]? = some v := hv
    rw [workItems_erase] at herased
    split_ifs at herased
    exact Or.inr herased

lemma relates_of_commit (hrefl : ∀ v, P v v) (h : SameData t (s.commit type (.workItem w)))
    (hplace : type ≠ .deleted → ∀ v, s.objects.workItems[w.metadata.key]? = some v →
      P v { w with metadata := { w.metadata with version := s.version + 1 } }) : s.Relates P t := by
  intro key v u hv hu
  obtain ⟨hput, rfl, rfl⟩ | hold := workItem_of_commit h hu
  · exact hplace hput v hv
  · rw [hv] at hold
    rw [← Option.some.inj hold]
    exact hrefl v

lemma SameData.keepsUids (h : SameData t s) : s.KeepsUids t :=
  h.relates fun _ => rfl

lemma keepsUids_of_commit {o : Object} (h : SameData t (s.commit type o))
    (hplace : type ≠ .deleted →
      ∀ p, s.objects.get? o.kind o.key = some p → o.metadata.uid = p.metadata.uid) : s.KeepsUids t := by
  cases o with
  | schedule x => exact relates_of_schedule (fun _ => rfl) h
  | workItem w =>
    refine relates_of_commit (fun _ => rfl) h fun hput v hv => ?_
    have hstored : s.objects.get? .workItem w.metadata.key = some (.workItem v) := by
      rw [Listing.get?_workItem, hv]
      rfl
    exact hplace hput _ hstored

/-! ## Requests -/

lemma Effect.keepsUids {r : Request} (h : Effect s t r) (hkeyed : s.objects.Keyed) : s.KeepsUids t := by
  cases h with
  | same hsame => exact hsame.keepsUids
  | added o hfree _ hdata =>
    refine keepsUids_of_commit hdata fun _ p hp => ?_
    rw [hfree] at hp
    simp at hp
  | modified o p key hget hkey huid hdata =>
    refine keepsUids_of_commit hdata fun _ q hq => ?_
    rw [hkey, hkeyed _ _ _ hget, hget] at hq
    rw [huid, Option.some.inj hq]
  | deleted w key _ _ hdata => exact keepsUids_of_commit hdata fun hput => absurd rfl hput

lemma stays_of_put {o : Object} (h : t.objects = s.objects.put o)
    (hv : s.objects.workItems[key]? = some v) : ∃ w, t.objects.workItems[key]? = some w := by
  rw [h]
  cases o with
  | schedule x => exact ⟨v, hv⟩
  | workItem w =>
    rw [workItems_put]
    split_ifs
    · exact ⟨w, rfl⟩
    · exact ⟨v, hv⟩

/-- A key stays taken unless the request is to delete what stands there. -/
theorem Effect.stays {r : Request} (h : Effect s t r) (hkeyed : s.objects.Keyed)
    (hv : s.objects.workItems[key]? = some v) :
    (∃ w, t.objects.workItems[key]? = some w) ∨ r = .deleteWorkItem key := by
  cases h with
  | same hsame => exact Or.inl ⟨v, by rw [hsame.objects]; exact hv⟩
  | added o _ _ hdata => exact Or.inl (stays_of_put hdata.objects hv)
  | modified o p _ _ _ _ hdata => exact Or.inl (stays_of_put hdata.objects hv)
  | deleted w gone hget hr hdata =>
    by_cases hkey : gone = key
    · exact Or.inr (hkey ▸ hr)
    · have herase : t.objects = s.objects.erase .workItem w.metadata.key := hdata.objects
      left
      rw [herase, hkeyed.workItem_key hget, workItems_erase, if_neg hkey]
      exact ⟨v, hv⟩

/-- Apart from deletions of schedules, only writes of statuses change what stands under a key. -/
theorem relates_serve (hrefl : ∀ v, P v v) {r : Request}
    (hdeletes : ∀ key propagation, r ≠ .deleteSchedule key propagation)
    (hwrites : ∀ w, r ≠ .updateWorkItemStatus w) : s.Relates P (s.serve r) := by
  cases r with
  | createSchedule stamp x =>
    obtain ⟨e, he⟩ | ⟨-, -, hok⟩ := createSchedule_cases s stamp x
    · exact SameData.relates (by simp only [serve, he]; exact SameData.refl s) hrefl
    · exact relates_of_schedule hrefl (by simp only [serve, hok]; exact SameData.refl _)
  | updateSchedule x =>
    obtain ⟨e, he⟩ | ⟨current, -, -, hok⟩ := updateSchedule_cases s x
    · exact SameData.relates (by simp only [serve, he]; exact SameData.refl s) hrefl
    · exact relates_of_schedule hrefl (by simp only [serve, hok]; exact SameData.refl _)
  | updateScheduleStatus x =>
    obtain ⟨e, t, he, ht⟩ | ⟨current, -, -, t, hok, ht⟩ := updateScheduleStatus_cases s x
    · exact SameData.relates (by simp only [serve, he]; exact ht) hrefl
    · exact relates_of_schedule hrefl (by simp only [serve, hok]; exact ht)
  | deleteSchedule key propagation => exact absurd rfl (hdeletes key propagation)
  | createWorkItem stamp w =>
    obtain ⟨e, t, he, ht⟩ | ⟨hfree, t, hok, ht⟩ := createWorkItem_cases s stamp w
    · exact SameData.relates (by simp only [serve, he]; exact ht) hrefl
    · refine relates_of_commit hrefl (by simp only [serve, hok]; exact ht) fun _ v hv => ?_
      exact absurd (hfree.symm.trans hv) (by simp)
  | updateWorkItemStatus w => exact absurd rfl (hwrites w)
  | deleteWorkItem key =>
    obtain ⟨e, t, he, ht⟩ | ⟨w, -, t, hok, ht⟩ := deleteWorkItem_cases s key
    · exact SameData.relates (by simp only [serve, he]; exact ht) hrefl
    · exact relates_of_commit hrefl (by simp only [serve, hok]; exact ht) fun hput => absurd rfl hput
  | setFaults faults => exact SameData.relates ⟨rfl, rfl, rfl⟩ hrefl

/-! ## Deletions of schedules -/

/-- A child that is freed from its schedule loses owners and gets a new version. -/
lemma relates_release
    (hfreed : ∀ v owners version, owners.Sublist v.metadata.owners →
      P v { v with metadata := { v.metadata with owners, version } })
    (propagation : Propagation) (owner : Meta) (hw : s.objects.workItems[w.metadata.key]? = some w) :
    s.Relates P (release propagation owner s w) := by
  have hrefl : ∀ v, P v v := fun v => hfreed v v.metadata.owners v.metadata.version (List.Sublist.refl _)
  cases propagation with
  | background => exact relates_of_commit hrefl (SameData.refl _) fun hput => absurd rfl hput
  | orphan =>
    refine relates_of_commit hrefl (SameData.refl _) fun _ v hv => ?_
    obtain rfl : w = v := Option.some.inj (hw.symm.trans hv)
    exact hfreed w _ _ List.filter_sublist

/-- Children that stand under keys of their own are released one by one, each as it is stored. -/
lemma relates_releases
    (hfreed : ∀ v owners version, owners.Sublist v.metadata.owners →
      P v { v with metadata := { v.metadata with owners, version } })
    (h : (s :: past).IsChain fun t s => s.Relates P t) (propagation : Propagation) (owner : Meta)
    {ws : List WorkItem} (hkeys : (ws.map (·.metadata.key)).Nodup)
    (hstored : ∀ w ∈ ws, s.objects.workItems[w.metadata.key]? = some w) :
    (releases propagation owner s ws ++ past).IsChain fun t s => s.Relates P t := by
  induction ws generalizing s past with
  | nil => exact h
  | cons w ws ih =>
    rw [List.map_cons, List.nodup_cons] at hkeys
    have hnext := h.cons_cons (relates_release hfreed propagation owner (hstored w List.mem_cons_self))
    rw [Store.releases, List.append_assoc]
    refine ih hnext hkeys.2 fun v hv => ?_
    have hother : w.metadata.key ≠ v.metadata.key := by
      intro hkey
      exact hkeys.1 (hkey ▸ List.mem_map_of_mem hv)
    rw [workItems_release propagation owner s hother]
    exact hstored v (List.mem_cons_of_mem w hv)

theorem relates_stages
    (hfreed : ∀ v owners version, owners.Sublist v.metadata.owners →
      P v { v with metadata := { v.metadata with owners, version } })
    (h : (s :: past).IsChain fun t s => s.Relates P t) (hkeyed : s.objects.Keyed) {r : Request}
    (hserve : (∀ key propagation, r ≠ .deleteSchedule key propagation) → s.Relates P (s.serve r)) :
    (s.stages r ++ s :: past).IsChain fun t s => s.Relates P t := by
  have hrefl : ∀ v, P v v := fun v => hfreed v v.metadata.owners v.metadata.version (List.Sublist.refl _)
  cases r with
  | deleteSchedule key propagation =>
    unfold Store.stages
    dsimp only
    split
    · exact h.cons_cons ((SameData.refl s).relates hrefl)
    · rename_i x _
      have hgone := h.cons_cons (relates_of_schedule hrefl (SameData.refl (s.commit .deleted (.schedule x))))
      have hafter := hkeyed.apply ⟨.deleted, (Object.schedule x).withVersion (s.version + 1)⟩
      refine relates_releases hfreed hgone _ _ ?_ ?_
      · exact hafter.nodup_items.sublist (List.filter_sublist.map _)
      · exact fun w hw => hafter.mem_items.1 (List.mem_of_mem_filter hw)
  | _ => exact h.cons_cons (hserve (by simp))

theorem UidChain.stages (h : UidChain (s :: past)) (hkeyed : s.objects.Keyed) (r : Request) :
    UidChain (s.stages r ++ s :: past) :=
  relates_stages (fun _ _ _ _ => rfl) h hkeyed fun hr => (serve_effect s hr).keepsUids hkeyed

/-! ## Through a run -/

/-- What stands under a key is what stood there in an earlier store, or the key was free since. -/
theorem UidChain.uid_eq (h : UidChain (s :: past))
    (hle : (s :: past).Pairwise fun newer older => older.version ≤ newer.version) {u : Store}
    (hu : u ∈ s :: past) (hseen : u.objects.workItems[key]? = some v)
    (hw : s.objects.workItems[key]? = some w) :
    w.metadata.uid = v.metadata.uid ∨
      ∃ t ∈ s :: past, u.version ≤ t.version ∧ t.objects.workItems[key]? = none := by
  induction past generalizing s w with
  | nil =>
    rw [List.mem_singleton.1 hu, hw] at hseen
    exact Or.inl (by rw [Option.some.inj hseen])
  | cons t past ih =>
    obtain rfl | hu := List.mem_cons.1 hu
    · rw [hw] at hseen
      exact Or.inl (by rw [Option.some.inj hseen])
    · obtain ⟨hlast, hbefore⟩ := List.isChain_cons_cons.1 h
      obtain ⟨-, hle⟩ := List.pairwise_cons.1 hle
      have hsub : t :: past ⊆ s :: t :: past := List.subset_cons_self s _
      cases hold : t.objects.workItems[key]? with
      | none =>
        refine Or.inr ⟨t, hsub List.mem_cons_self, ?_, hold⟩
        obtain rfl | hu := List.mem_cons.1 hu
        · exact le_rfl
        · exact List.rel_of_pairwise_cons hle hu
      | some x =>
        obtain huid | ⟨t', ht', hfree⟩ := ih hbefore hle hu hold
        · exact Or.inl ((hlast key x w hold hw).trans huid)
        · exact Or.inr ⟨t', hsub ht', hfree⟩

end Store

end Timetable
