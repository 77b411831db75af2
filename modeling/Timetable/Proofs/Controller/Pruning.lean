import Timetable.Proofs.Controller.Effects

/-!
# What a pass leaves of the children

A pass deletes the finished children beyond the limits. Of those that are left there is no excess, and the
active ones are all there. The last launch of the schedule stays, or is the fire just launched.
-/

namespace Timetable

/-- The schedule of a view as it is stored with the status that the children imply. -/
def View.written (view : View) (version : Nat) : Schedule :=
  { view.settled with metadata := { view.schedule.metadata with version } }

/-- A status that the children imply already is stored as it is. -/
lemma View.written_of_same {view : View} (h : view.schedule.desiredStatus view.children = view.schedule.status) :
    view.written view.schedule.metadata.version = view.schedule := by
  unfold written settled
  rw [h]

namespace Pass
variable {cap : Nat} {key : Key} {view view' : View}

lemma oldestExcess_eq_nil {α : Type} {start : α → Option Instant} {n : Nat} {items left : List α}
    (hnodup : left.Nodup) (hleft : ∀ a ∈ left, a ∈ items ∧ a ∉ oldestExcess start n items) :
    oldestExcess start n left = [] := by
  have hsub : left ⊆ (items.mergeSort fun a b => startsBefore (start a) (start b)).drop
      (items.length - n) := by
    intro a ha
    obtain ⟨hitem, hkept⟩ := hleft a ha
    have hsorted : a ∈ items.mergeSort fun a b => startsBefore (start a) (start b) :=
      List.mem_mergeSort.2 hitem
    rw [← List.take_append_drop (items.length - n)
      (items.mergeSort fun a b => startsBefore (start a) (start b))] at hsorted
    exact (List.mem_append.1 hsorted).resolve_left hkept
  have hlength := (List.subperm_of_subset hnodup hsub).length_le
  rw [List.length_drop, List.length_mergeSort] at hlength
  unfold oldestExcess
  rw [List.take_eq_nil_iff]
  left
  omega

/-- Once the excess is deleted there is none. -/
lemma excess_eq_nil {spec : ScheduleSpec} {children left : List WorkItem} (hnodup : left.Nodup)
    (hleft : ∀ w ∈ left, w.status.phase.isTerminal →
      w ∈ children ∧ w ∉ excess spec children) : excess spec left = [] := by
  unfold excess Buckets.ofItems at *
  dsimp only at *
  rw [List.append_eq_nil_iff]
  constructor
  · cases hlimit : spec.failedLimit with
    | none => rfl
    | some n =>
      apply oldestExcess_eq_nil (hnodup.filter _)
      intro w hw
      obtain ⟨hw, hfailed⟩ := List.mem_filter.1 hw
      have hphase : w.status.phase = .failed := by simpa using hfailed
      obtain ⟨hchild, hkept⟩ := hleft w hw (by rw [hphase]; rfl)
      rw [hlimit] at hkept
      exact ⟨List.mem_filter.2 ⟨hchild, hfailed⟩, fun h => hkept (List.mem_append_left _ h)⟩
  · cases hlimit : spec.successfulLimit with
    | none => rfl
    | some n =>
      apply oldestExcess_eq_nil (hnodup.filter _)
      intro w hw
      obtain ⟨hw, hdone⟩ := List.mem_filter.1 hw
      have hphase : w.status.phase = .succeeded := by simpa using hdone
      obtain ⟨hchild, hkept⟩ := hleft w hw (by rw [hphase]; rfl)
      rw [hlimit] at hkept
      exact ⟨List.mem_filter.2 ⟨hchild, hdone⟩, fun h => hkept (List.mem_append_right _ h)⟩

lemma isTerminal_of_mem_excess {spec : ScheduleSpec} {children : List WorkItem} {w : WorkItem}
    (h : w ∈ excess spec children) : w.status.phase.isTerminal := by
  have hbucket : ∀ {n : Nat} {phase : Phase}, phase.isTerminal →
      w ∈ oldestExcess (fun w => w.status.started) n (children.filter fun w => w.status.phase == phase) →
        w.status.phase.isTerminal := by
    intro n phase hphase hw
    have hfound := (List.mem_filter.1 (mem_of_mem_oldestExcess hw)).2
    rw [eq_of_beq hfound]
    exact hphase
  unfold excess at h
  dsimp only at h
  obtain h | h := List.mem_append.1 h
  · split at h
    · simp at h
    · exact hbucket rfl h
  · split at h
    · simp at h
    · exact hbucket rfl h

section
variable {v : Nat} {w : WorkItem} {l l' : Listing}

/-- The schedule of a view stays under its key when its status is written. -/
lemma stored_written (hkeyed : l.Keyed) (hshows : view.Shows l key) (v : Nat) :
    (l.put (.schedule (view.written v))).schedules[key]? = some (view.written v) := by
  change (l.schedules.insert view.schedule.metadata.key (view.written v))[key]? = _
  rw [KeyMap.getElem?_insert, if_pos (hkeyed.schedule_key hshows.schedule)]

/-- Two views of one schedule show the same work items where both are stored. -/
lemma mem_children_iff (hshows : view.Shows l key) (hshows' : view'.Shows l' key)
    (hschedule : view'.schedule = view.written v) (hstored : l.workItems[w.metadata.key]? = some w)
    (hstored' : l'.workItems[w.metadata.key]? = some w) : w ∈ view'.children ↔ w ∈ view.children := by
  rw [hshows.children, hshows'.children, hschedule]
  simp only [hstored, hstored', true_and]
  exact Iff.rfl

/-- Children that are left do not move the last launch. -/
lemma lastScheduled_eq (hschedule : view'.schedule = view.written v)
    (hleft : ∀ w ∈ view'.children, w ∈ view.children) :
    view'.settled.status.lastScheduled = view.settled.status.lastScheduled := by
  obtain ⟨last, hlast, hcreated, -, hfires⟩ := view.schedule.desiredStatus_lastScheduled view.children
  have hsame : (view'.schedule.desiredStatus view'.children).lastScheduled = some last := by
    rw [hschedule]
    apply Schedule.desiredStatus_lastScheduled_eq
    · exact Or.inl hlast
    · exact hcreated
    · intro u hu
      exact (Option.some.inj (hu.symm.trans hlast)).le
    · exact fun w hw => hfires w (hleft w hw)
  exact hsame.trans hlast.symm

/-- A child that was launched becomes the last launch. -/
lemma lastScheduled_launched (hschedule : view'.schedule = view.written v) (hw : w ∈ view'.children)
    {fire : Instant} (hfire : w.scheduledTime = .ok fire)
    (hlater : view.settled.status.lastScheduled.getD view.settled.metadata.created < fire)
    (hleft : ∀ w' ∈ view'.children, w' = w ∨ w' ∈ view.children) :
    view'.settled.status.lastScheduled = some fire := by
  obtain ⟨last, hlast, hcreated, -, hfires⟩ := view.schedule.desiredStatus_lastScheduled view.children
  have hlt : last < fire := by
    change (view.schedule.desiredStatus view.children).lastScheduled.getD _ < fire at hlater
    rwa [hlast] at hlater
  change (view'.schedule.desiredStatus view'.children).lastScheduled = some fire
  rw [hschedule]
  apply Schedule.desiredStatus_lastScheduled_eq
  · exact Or.inr ⟨w, hw, hfire⟩
  · exact hcreated.trans hlt.le
  · intro u hu
    exact (Option.some.inj (hu.symm.trans hlast)).trans_le hlt.le
  · intro w' hw' u hu
    obtain rfl | hold := hleft w' hw'
    · exact (Except.ok.inj (hu.symm.trans hfire)).le
    · exact (hfires w' hold u hu).trans hlt.le

lemma spec_settled (hschedule : view'.schedule = view.written v) :
    view'.settled.spec = view.settled.spec := by
  unfold View.settled
  rw [hschedule]
  rfl

lemma metadata_settled (hschedule : view'.schedule = view.written v) :
    view'.settled.metadata = { view.settled.metadata with version := v } := by
  unfold View.settled
  rw [hschedule]
  rfl

/-- Where there is no excess, a pass goes straight to deciding. -/
lemma settle_eq (hschedule : view'.schedule = view.written v)
    (hnodup : (view'.children.map (·.metadata.key)).Nodup)
    (hleft : ∀ w ∈ view'.children, w.status.phase.isTerminal →
      w ∈ view.children ∧ w ∉ excess view.schedule.spec view.children) :
    settle cap key view' view'.settled =
      schedule cap key view'.settled (Buckets.ofItems view'.children).active := by
  have hnone := excess_eq_nil (hnodup.of_map _) hleft
  unfold settle
  rw [spec_settled hschedule]
  change (deleteAll key (excess view.schedule.spec view'.children)).andThen _ = _
  rw [hnone]
  rfl

variable {gone : List WorkItem}

/-- Children that are still stored were there before and are not among those deleted. -/
lemma children_left (hshows : view.Shows l key) (hshows' : view'.Shows l' key)
    (hschedule : view'.schedule = view.written v)
    (hstored : ∀ (k : Key) (w : WorkItem), l'.workItems[k]? = some w →
      l.workItems[k]? = some w ∧ ∀ e ∈ gone, e.metadata.key ≠ k) :
    ∀ w ∈ view'.children, w ∈ view.children ∧ w ∉ gone := by
  intro w hw
  have hnow := ((hshows'.children w).1 hw).1
  obtain ⟨hbefore, hkept⟩ := hstored _ w hnow
  exact ⟨(mem_children_iff hshows hshows' hschedule hbefore hnow).1 hw, fun h => hkept w h rfl⟩

/-- Pruning leaves the active children. -/
lemma active_eq_nil_iff (hshows : view.Shows l key) (hshows' : view'.Shows l' key)
    (hschedule : view'.schedule = view.written v)
    (hstored : ∀ (k : Key) (w : WorkItem), l'.workItems[k]? = some w ↔
      l.workItems[k]? = some w ∧ ∀ e ∈ excess view.schedule.spec view.children, e.metadata.key ≠ k) :
    (Buckets.ofItems view'.children).active = [] ↔ (Buckets.ofItems view.children).active = [] := by
  unfold Buckets.ofItems
  dsimp only
  rw [List.filter_eq_nil_iff, List.filter_eq_nil_iff]
  constructor
  · intro hnone w hw hactive
    have hbefore := ((hshows.children w).1 hw).1
    have hkept : ∀ e ∈ excess view.schedule.spec view.children, e.metadata.key ≠ w.metadata.key := by
      intro e he hkey
      obtain rfl := List.inj_on_of_nodup_map hshows.nodup (mem_of_mem_excess he) hw hkey
      simp [isTerminal_of_mem_excess he] at hactive
    have hnow := (hstored w.metadata.key w).2 ⟨hbefore, hkept⟩
    exact hnone w ((mem_children_iff hshows hshows' hschedule hbefore hnow).2 hw) hactive
  · intro hnone w hw
    exact hnone w (children_left hshows hshows' hschedule (fun k w h => (hstored k w).1 h) w hw).1

end

end Pass

end Timetable
