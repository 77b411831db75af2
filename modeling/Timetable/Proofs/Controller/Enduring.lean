import Timetable.Proofs.Controller.Effects

/-!
# Clients that meet with faults

A client endures whatever faults are set before each of its calls, as long as nobody else writes. The calls that a
fault made fail are logged, and the log tells what the client left undone: children whose deletion failed stay, and a
launch whose creation failed did not happen.
-/

namespace Timetable

/-- A call that a fault made fail. -/
inductive Mishap
  | status (e : StoreError)
  | create (e : StoreError)
  | delete (key : Key) (e : StoreError)
  deriving DecidableEq

/-- The store with other faults. -/
def Store.beset (s : Store) (faults : Faults) : Store :=
  { s with faults }

namespace Client
variable {α β : Type}

/-- A client runs to its end, with any faults at each call, and gives an answer. -/
inductive Endures : Client α → Site → List Mishap → α → Site → Prop
  | done (a : α) (site : Site) : Endures (.done a) site [] a site
  | listItems {next : List WorkItem → Client α} {site after : Site} {log : List Mishap} {a : α}
      (h : Endures (next site.store.objects.items) site log a after) : Endures (.listItems next) site log a after
  | writeScheduleStatus {x : Schedule} {next : Except StoreError Schedule → Client α} {site after : Site}
      {log : List Mishap} {a : α} (faults : Faults)
      (h : Endures (next ((site.store.beset faults).updateScheduleStatus x).1)
        { site with store := ((site.store.beset faults).updateScheduleStatus x).2 } log a after) :
      Endures (.writeScheduleStatus x next) site ((faults.nextStatusUpdate.map .status).toList ++ log) a after
  | createItem {w : WorkItem} {next : Except StoreError WorkItem → Client α} {site after : Site}
      {log : List Mishap} {a : α} (faults : Faults) (uid : Uid)
      (h : Endures (next ((site.store.beset faults).createWorkItem ⟨uid, site.clock⟩ w).1)
        { site with store := ((site.store.beset faults).createWorkItem ⟨uid, site.clock⟩ w).2 } log a after) :
      Endures (.createItem w next) site ((faults.nextCreate.map .create).toList ++ log) a after
  | writeItemStatus {w : WorkItem} {next : Except StoreError WorkItem → Client α} {site after : Site}
      {log : List Mishap} {a : α} (faults : Faults)
      (h : Endures (next ((site.store.beset faults).updateWorkItemStatus w).1)
        { site with store := ((site.store.beset faults).updateWorkItemStatus w).2 } log a after) :
      Endures (.writeItemStatus w next) site ((faults.nextStatusUpdate.map .status).toList ++ log) a after
  | deleteItem {key : Key} {next : Except StoreError Unit → Client α} {site after : Site}
      {log : List Mishap} {a : α} (faults : Faults)
      (h : Endures (next ((site.store.beset faults).deleteWorkItem key).1)
        { site with store := ((site.store.beset faults).deleteWorkItem key).2 } log a after) :
      Endures (.deleteItem key next) site ((faults.deletes.map (.delete key)).toList ++ log) a after
  | readClock {next : Instant → Client α} {site after : Site} {log : List Mishap} {a : α}
      (h : Endures (next site.clock) site log a after) : Endures (.readClock next) site log a after
  | note {r : Record} {next : Client α} {site after : Site} {log : List Mishap} {a : α}
      (h : Endures next { site with records := r :: site.records } log a after) :
      Endures (.note r next) site log a after

variable {c : Client α} {f : α → Client β} {site after : Site} {log : List Mishap} {a : α} {b : β}

theorem Endures.of_andThen (h : (c.andThen f).Endures site log b after) :
    ∃ a mid first rest, log = first ++ rest ∧ c.Endures site first a mid ∧ (f a).Endures mid rest b after := by
  induction c generalizing site log with
  | done a => exact ⟨a, site, [], log, rfl, .done a site, h⟩
  | listItems next ih =>
    cases h with
    | listItems h =>
      obtain ⟨a, mid, first, rest, rfl, hfirst, hrest⟩ := ih _ h
      exact ⟨a, mid, first, rest, rfl, .listItems hfirst, hrest⟩
  | writeScheduleStatus x next ih =>
    cases h with
    | writeScheduleStatus faults h =>
      obtain ⟨a, mid, first, rest, rfl, hfirst, hrest⟩ := ih _ h
      exact ⟨a, mid, _, rest, (List.append_assoc _ _ _).symm, .writeScheduleStatus faults hfirst, hrest⟩
  | createItem w next ih =>
    cases h with
    | createItem faults uid h =>
      obtain ⟨a, mid, first, rest, rfl, hfirst, hrest⟩ := ih _ h
      exact ⟨a, mid, _, rest, (List.append_assoc _ _ _).symm, .createItem faults uid hfirst, hrest⟩
  | writeItemStatus w next ih =>
    cases h with
    | writeItemStatus faults h =>
      obtain ⟨a, mid, first, rest, rfl, hfirst, hrest⟩ := ih _ h
      exact ⟨a, mid, _, rest, (List.append_assoc _ _ _).symm, .writeItemStatus faults hfirst, hrest⟩
  | deleteItem key next ih =>
    cases h with
    | deleteItem faults h =>
      obtain ⟨a, mid, first, rest, rfl, hfirst, hrest⟩ := ih _ h
      exact ⟨a, mid, _, rest, (List.append_assoc _ _ _).symm, .deleteItem faults hfirst, hrest⟩
  | readClock next ih =>
    cases h with
    | readClock h =>
      obtain ⟨a, mid, first, rest, rfl, hfirst, hrest⟩ := ih _ h
      exact ⟨a, mid, first, rest, rfl, .readClock hfirst, hrest⟩
  | note r next ih =>
    cases h with
    | note h =>
      obtain ⟨a, mid, first, rest, rfl, hfirst, hrest⟩ := ih h
      exact ⟨a, mid, first, rest, rfl, .note hfirst, hrest⟩

/-- A client that is run while the faults stay as they are endures them. -/
theorem run_endures (uids : Nat → Uid) (c : Client α) (site : Site) (minted : Nat) :
    ∃ log, c.Endures site log (c.run uids site minted).1 (c.run uids site minted).2.1 := by
  induction c generalizing site minted with
  | done a => exact ⟨[], .done a site⟩
  | listItems next ih =>
    obtain ⟨log, h⟩ := ih _ site minted
    exact ⟨log, .listItems h⟩
  | writeScheduleStatus x next ih =>
    obtain ⟨log, h⟩ := ih _ { site with store := (site.store.updateScheduleStatus x).2 } minted
    exact ⟨_, .writeScheduleStatus site.store.faults h⟩
  | createItem w next ih =>
    let made := site.store.createWorkItem ⟨uids minted, site.clock⟩ w
    obtain ⟨log, h⟩ := ih made.1 { site with store := made.2 } (if made.1.isOk then minted + 1 else minted)
    exact ⟨_, .createItem site.store.faults (uids minted) h⟩
  | writeItemStatus w next ih =>
    obtain ⟨log, h⟩ := ih _ { site with store := (site.store.updateWorkItemStatus w).2 } minted
    exact ⟨_, .writeItemStatus site.store.faults h⟩
  | deleteItem key next ih =>
    obtain ⟨log, h⟩ := ih _ { site with store := (site.store.deleteWorkItem key).2 } minted
    exact ⟨_, .deleteItem site.store.faults h⟩
  | readClock next ih =>
    obtain ⟨log, h⟩ := ih _ site minted
    exact ⟨log, .readClock h⟩
  | note r next ih =>
    obtain ⟨log, h⟩ := ih { site with records := r :: site.records } minted
    exact ⟨log, .note h⟩

lemma Endures.clock_eq (h : c.Endures site log a after) : after.clock = site.clock := by
  induction h with
  | done a site => rfl
  | listItems _ ih => exact ih
  | writeScheduleStatus _ _ ih => exact ih
  | createItem _ _ _ ih => exact ih
  | writeItemStatus _ _ ih => exact ih
  | deleteItem _ _ ih => exact ih
  | readClock _ ih => exact ih
  | note _ ih => exact ih

/-- A client that asks nothing of the store leaves it as it is. -/
lemma Endures.of_every_false (hc : c.Every fun _ => False) (h : c.Endures site log a after) :
    log = [] ∧ after.store = site.store := by
  induction h with
  | done a site => exact ⟨rfl, rfl⟩
  | listItems _ ih => exact ih (hc _)
  | writeScheduleStatus _ _ ih => exact hc.1.elim
  | createItem _ _ _ ih => exact (hc.1 .blank).elim
  | writeItemStatus _ _ ih => exact hc.1.elim
  | deleteItem _ _ ih => exact hc.1.elim
  | readClock _ ih => exact ih (hc _)
  | note _ ih => exact ih hc

end Client

/-! ## Deleting -/

/-- From one listing to the next the work items named are deleted, but for those whose deletion failed. -/
structure Deletes (ws : List WorkItem) (log : List Mishap) (l l' : Listing) : Prop where
  schedules : l'.schedules = l.schedules
  logged : ∀ m ∈ log, ∃ w ∈ ws, ∃ e, m = .delete w.metadata.key e
  workItems : ∀ (k : Key) (v : WorkItem), l'.workItems[k]? = some v ↔
    l.workItems[k]? = some v ∧ ((∃ w ∈ ws, w.metadata.key = k) → ∃ e, Mishap.delete k e ∈ log)

namespace Deletes
variable {ws vs : List WorkItem} {log rest : List Mishap} {l l' m : Listing} {w : WorkItem}

lemma nil (l : Listing) : Deletes [] [] l l := ⟨rfl, by simp, by simp⟩

lemma failed (w : WorkItem) (e : StoreError) (l : Listing) : Deletes [w] [.delete w.metadata.key e] l l := by
  refine ⟨rfl, by simp, fun k v => ?_⟩
  rw [iff_self_and]
  rintro - ⟨u, hu, rfl⟩
  exact ⟨e, by simp [List.mem_singleton.1 hu]⟩

lemma erased (w : WorkItem) (l : Listing) : Deletes [w] [] l (l.erase .workItem w.metadata.key) := by
  refine ⟨rfl, by simp, fun k v => ?_⟩
  have hone : (l.erase .workItem w.metadata.key).workItems[k]? =
      if w.metadata.key = k then none else l.workItems[k]? := KeyMap.getElem?_erase _ _ _
  rw [hone]
  by_cases hk : w.metadata.key = k
  · simp [hk]
  · simp [hk]

/-- Work items with different keys are deleted one after the other. -/
lemma append (h : Deletes ws log l m) (h' : Deletes vs rest m l')
    (hnodup : ((ws ++ vs).map (·.metadata.key)).Nodup) : Deletes (ws ++ vs) (log ++ rest) l l' := by
  have hdisjoint : ∀ w ∈ ws, ∀ v ∈ vs, w.metadata.key ≠ v.metadata.key := by
    rw [List.map_append, List.nodup_append] at hnodup
    exact fun w hw v hv => hnodup.2.2 _ (List.mem_map_of_mem hw) _ (List.mem_map_of_mem hv)
  refine ⟨h'.schedules.trans h.schedules, ?_, fun k v => ?_⟩
  · intro mishap hm
    obtain hm | hm := List.mem_append.1 hm
    · obtain ⟨w, hw, e, rfl⟩ := h.logged mishap hm
      exact ⟨w, List.mem_append_left vs hw, e, rfl⟩
    · obtain ⟨w, hw, e, rfl⟩ := h'.logged mishap hm
      exact ⟨w, List.mem_append_right ws hw, e, rfl⟩
  · rw [h'.workItems, h.workItems]
    constructor
    · rintro ⟨⟨hl, hfirst⟩, hrest⟩
      refine ⟨hl, ?_⟩
      rintro ⟨w, hw, hk⟩
      obtain hw | hw := List.mem_append.1 hw
      · obtain ⟨e, he⟩ := hfirst ⟨w, hw, hk⟩
        exact ⟨e, List.mem_append_left rest he⟩
      · obtain ⟨e, he⟩ := hrest ⟨w, hw, hk⟩
        exact ⟨e, List.mem_append_right log he⟩
    · rintro ⟨hl, hall⟩
      refine ⟨⟨hl, ?_⟩, ?_⟩
      · rintro ⟨w, hw, rfl⟩
        obtain ⟨e, he⟩ := hall ⟨w, List.mem_append_left vs hw, rfl⟩
        obtain he | he := List.mem_append.1 he
        · exact ⟨e, he⟩
        · obtain ⟨v, hv, e', heq⟩ := h'.logged _ he
          exact absurd (Mishap.delete.inj heq).1 (hdisjoint w hw v hv)
      · rintro ⟨w, hw, rfl⟩
        obtain ⟨e, he⟩ := hall ⟨w, List.mem_append_right ws hw, rfl⟩
        obtain he | he := List.mem_append.1 he
        · obtain ⟨v, hv, e', heq⟩ := h.logged _ he
          exact absurd (Mishap.delete.inj heq).1.symm (hdisjoint v hv w hw)
        · exact ⟨e, he⟩

end Deletes

namespace Pass
variable {site after : Site} {key : Key} {ws : List WorkItem} {w : WorkItem} {log : List Mishap} {a : Unit}

lemma deleteChild_endures (hkeyed : site.store.objects.Keyed) (h : (deleteChild key w).Endures site log a after) :
    Deletes [w] log site.store.objects after.store.objects ∧ after.store.objects.Keyed := by
  unfold deleteChild at h
  cases h with
  | deleteItem faults h =>
    obtain ⟨rfl, hstore⟩ := h.of_every_false <| by
      dsimp only
      split
      · trivial
      · trivial
      · trivial
    rw [List.append_nil]
    cases hfault : faults.deletes with
    | some e =>
      have hobjects : after.store.objects = site.store.objects := by
        rw [hstore]
        unfold Store.deleteWorkItem Store.removeWorkItem Store.beset
        simp only [hfault]
      rw [hobjects]
      exact ⟨.failed w e _, hkeyed⟩
    | none =>
      have hobjects := (Store.deleteWorkItem_calm (s := site.store.beset faults) hfault hkeyed w.metadata.key).1
      rw [hstore, hobjects]
      exact ⟨.erased w _, hkeyed.erase _ _⟩

theorem deleteAll_endures (hkeyed : site.store.objects.Keyed) (hnodup : (ws.map (·.metadata.key)).Nodup)
    (h : (deleteAll key ws).Endures site log a after) :
    Deletes ws log site.store.objects after.store.objects ∧ after.store.objects.Keyed := by
  induction ws generalizing site log with
  | nil =>
    cases h with
    | done => exact ⟨.nil _, hkeyed⟩
  | cons w ws ih =>
    obtain ⟨u, mid, first, rest, rfl, hfirst, hrest⟩ := Client.Endures.of_andThen h
    obtain ⟨hone, hmid⟩ := deleteChild_endures hkeyed hfirst
    obtain ⟨hothers, hafter⟩ := ih hmid (List.nodup_cons.1 hnodup).2 hrest
    exact ⟨hone.append hothers hnodup, hafter⟩

/-! ## Launching -/

section
variable {y : Schedule} {fire : Instant} {wait : Action} {o : Outcome}

/-- A launch leaves the data as they are, or stores the child of its fire. It does so exactly where no fault makes it
fail and the child is not refused. -/
theorem launch_endures (h : (launch key y fire wait).Endures site log o after) :
    (∀ m ∈ log, ∃ e, m = .create e) ∧
      ((∃ w uid, WorkItem.ofTemplate y fire = .ok w ∧ log = [] ∧
          w.refusal site.store.objects.workItems = none ∧
          after.store.objects = site.store.objects.put
            (.workItem (site.store.newWorkItem ⟨uid, site.clock⟩ w))) ∨
        after.store.objects = site.store.objects ∧ ∀ w, WorkItem.ofTemplate y fire = .ok w → log = [] →
          w.refusal site.store.objects.workItems ≠ none) := by
  unfold launch at h
  cases htemplate : WorkItem.ofTemplate y fire with
  | error e =>
    rw [htemplate] at h
    obtain ⟨rfl, hstore⟩ := Client.Endures.of_every_false (c := .note _ (.done _)) trivial h
    refine ⟨by simp, Or.inr ⟨by rw [hstore], by simp⟩⟩
  | ok w =>
    rw [htemplate] at h
    cases h with
    | createItem faults uid h =>
      obtain ⟨rfl, hstore⟩ := h.of_every_false <| by
        dsimp only
        split
        · trivial
        · trivial
        · trivial
      rw [List.append_nil]
      cases hfault : faults.nextCreate with
      | some e =>
        refine ⟨by simp, Or.inr ⟨?_, by simp⟩⟩
        rw [hstore]
        unfold Store.createWorkItem Store.beset
        simp only [hfault]
      | none =>
        have heq := Store.createWorkItem_eq (s := site.store.beset faults) hfault ⟨uid, site.clock⟩ w
        refine ⟨by simp, ?_⟩
        cases hrefusal : w.refusal site.store.objects.workItems with
        | some e =>
          have hrefused : w.refusal (site.store.beset faults).objects.workItems = some e := hrefusal
          rw [hrefused] at heq
          refine Or.inr ⟨by rw [hstore, heq]; rfl, fun v hv _ => ?_⟩
          rw [← Except.ok.inj hv, hrefusal]
          simp
        | none =>
          have haccepted : w.refusal (site.store.beset faults).objects.workItems = none := hrefusal
          rw [haccepted] at heq
          refine Or.inl ⟨w, uid, rfl, rfl, hrefusal, ?_⟩
          rw [hstore, heq]
          rfl

end

end Pass

end Timetable
