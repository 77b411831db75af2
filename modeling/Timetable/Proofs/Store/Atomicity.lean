import Timetable.Proofs.Store.Journal

/-!
# Writes are whole and lose no update

A request that fails leaves all data as they are. An update succeeds exactly when what is stored is the
object that was read, and then changes that object alone. This holds because no version is ever given twice.
-/

namespace Timetable

namespace Request

/-- The calls counted once the request was made. -/
def counted (c : CallCounts) : Request → CallCounts
  | .createWorkItem .. => { c with creates := c.creates + 1 }
  | .deleteWorkItem _ => { c with deletes := c.deletes + 1 }
  | .updateScheduleStatus _ | .updateWorkItemStatus _ => { c with statusUpdates := c.statusUpdates + 1 }
  | _ => c

/-- The fault that the request runs into. -/
def fault (f : Faults) : Request → Option StoreError
  | .createWorkItem .. => f.nextCreate
  | .deleteWorkItem _ => f.deletes
  | .updateScheduleStatus _ | .updateWorkItemStatus _ => f.nextStatusUpdate
  | _ => none

/-- The faults left once the request was made. -/
def spent (f : Faults) : Request → Faults
  | .createWorkItem .. => { f with nextCreate := none }
  | .updateScheduleStatus _ | .updateWorkItemStatus _ => { f with nextStatusUpdate := none }
  | .setFaults faults => faults
  | _ => f

/-- An update of an object that was read: it has the object's key and version. -/
def Carries (o : Object) : Request → Prop
  | .updateSchedule x | .updateScheduleStatus x =>
    o.kind = .schedule ∧ x.metadata.key = o.key ∧ x.metadata.version = o.version
  | .updateWorkItemStatus w =>
    o.kind = .workItem ∧ w.metadata.key = o.key ∧ w.metadata.version = o.version
  | _ => False

/-- What an update makes of an object, which gets the version. -/
def revise (version : Nat) : Request → Object → Object
  | .updateSchedule x, .schedule current => .schedule { current with
      metadata := { current.metadata with
        labels := x.metadata.labels, annotations := x.metadata.annotations, version }
      spec := x.spec }
  | .updateScheduleStatus x, .schedule current => .schedule { current with
      metadata := { current.metadata with version }
      status := x.status }
  | .updateWorkItemStatus w, .workItem current => .workItem { current with
      metadata := { current.metadata with version }
      status := w.status }
  | _, o => o

end Request

namespace Store
variable {s t : Store} {r : Request} {o p : Object}

/-- The answer to a request, with the object written. -/
def reply (s : Store) : Request → Except StoreError (Option Object)
  | .createSchedule stamp x => (s.createSchedule stamp x).1.map fun y => some (.schedule y)
  | .updateSchedule x => (s.updateSchedule x).1.map fun y => some (.schedule y)
  | .updateScheduleStatus x => (s.updateScheduleStatus x).1.map fun y => some (.schedule y)
  | .deleteSchedule key propagation => (s.deleteSchedule key propagation).1.map fun _ => none
  | .createWorkItem stamp w => (s.createWorkItem stamp w).1.map fun v => some (.workItem v)
  | .updateWorkItemStatus w => (s.updateWorkItemStatus w).1.map fun v => some (.workItem v)
  | .deleteWorkItem key => (s.deleteWorkItem key).1.map fun _ => none
  | .setFaults _ => .ok none

/-- The store after a request that changed no data. -/
def refuse (s : Store) (r : Request) : Store :=
  { s with calls := r.counted s.calls, faults := r.spent s.faults }

/-- The store after an update of an object. -/
def revised (s : Store) (r : Request) (o : Object) : Store :=
  { s.refuse r with
    objects := s.objects.put (r.revise (s.version + 1) o)
    version := s.version + 1
    history := remember s.history ⟨.modified, r.revise (s.version + 1) o⟩ }

/-! ## Requests that fail -/

lemma updateScheduleStatus_eq (s : Store) (x : Schedule) :
    s.updateScheduleStatus x = match s.faults.nextStatusUpdate with
      | some e => (.error e, s.refuse (.updateScheduleStatus x))
      | none => (s.refuse (.updateScheduleStatus x)).editSchedule x.metadata.key x.metadata.version
          fun current => { current with status := x.status } := by
  unfold updateScheduleStatus takeStatusFault
  cases s.faults.nextStatusUpdate with
  | none => rfl
  | some e => rfl

lemma updateWorkItemStatus_eq (s : Store) (w : WorkItem) :
    s.updateWorkItemStatus w = match s.faults.nextStatusUpdate with
      | some e => (.error e, s.refuse (.updateWorkItemStatus w))
      | none => (s.refuse (.updateWorkItemStatus w)).editWorkItem w.metadata.key w.metadata.version
          fun current => { current with status := w.status } := by
  unfold updateWorkItemStatus takeStatusFault
  cases s.faults.nextStatusUpdate with
  | none => rfl
  | some e => rfl

lemma createWorkItem_error {stamp : Stamp} {w : WorkItem} {e : StoreError}
    (h : (s.createWorkItem stamp w).1 = .error e) :
    (s.createWorkItem stamp w).2 = s.refuse (.createWorkItem stamp w) := by
  have hfaults : s.faults.nextCreate = none → { s.faults with nextCreate := none } = s.faults := by
    intro hnone
    rw [← hnone]
  unfold createWorkItem at h ⊢
  dsimp only at h ⊢
  cases hfault : s.faults.nextCreate with
  | some e => rfl
  | none =>
    simp only [hfault] at h ⊢
    obtain ⟨e, he⟩ | ⟨-, -, hok⟩ := insertNew_cases
      { s with calls := { s.calls with creates := s.calls.creates + 1 } } stamp (.workItem w)
    · rw [he]
      unfold refuse
      dsimp only [Request.counted, Request.spent]
      rw [hfaults hfault]
    · rw [hok] at h
      simp [stamped] at h

/-- A request that fails passes through no other data, counts as a call and uses up a fault. -/
theorem stages_of_error (hkeyed : s.objects.Keyed) (r : Request) {e : StoreError} (h : s.reply r = .error e) :
    s.stages r = [s.refuse r] := by
  cases r with
  | createSchedule stamp x =>
    obtain ⟨e, he⟩ | ⟨-, -, hok⟩ := createSchedule_cases s stamp x
    · simp only [stages, serve, he]
      rfl
    · simp [reply, hok, Except.map] at h
  | updateSchedule x =>
    obtain ⟨e, he⟩ | ⟨current, -, -, hok⟩ := updateSchedule_cases s x
    · simp only [stages, serve, he]
      rfl
    · simp [reply, hok, Except.map] at h
  | updateScheduleStatus x =>
    simp only [reply, stages, serve] at h ⊢
    rw [updateScheduleStatus_eq] at h ⊢
    cases hfault : s.faults.nextStatusUpdate with
    | some e => rfl
    | none =>
      simp only [hfault] at h ⊢
      obtain ⟨e, he⟩ | ⟨current, -, -, hok⟩ := editSchedule_cases (s.refuse (.updateScheduleStatus x))
        x.metadata.key x.metadata.version fun current => { current with status := x.status }
      · rw [he]
      · rw [hok] at h
        simp [Except.map] at h
  | deleteSchedule key propagation =>
    simp only [reply, deleteSchedule_eq hkeyed, stages] at h ⊢
    cases hget : s.objects.schedules[key]? with
    | none => rfl
    | some x => simp [hget, Except.map] at h
  | createWorkItem stamp w =>
    cases hcreated : (s.createWorkItem stamp w).1 with
    | ok v => simp [reply, hcreated, Except.map] at h
    | error e => simp only [stages, serve, createWorkItem_error hcreated]
  | updateWorkItemStatus w =>
    simp only [reply, stages, serve] at h ⊢
    rw [updateWorkItemStatus_eq] at h ⊢
    cases hfault : s.faults.nextStatusUpdate with
    | some e => rfl
    | none =>
      simp only [hfault] at h ⊢
      obtain ⟨e, he⟩ | ⟨current, -, -, hok⟩ := editWorkItem_cases (s.refuse (.updateWorkItemStatus w))
        w.metadata.key w.metadata.version fun current => { current with status := w.status }
      · rw [he]
      · rw [hok] at h
        simp [Except.map] at h
  | deleteWorkItem key =>
    simp only [reply, stages, serve, deleteWorkItem, removeWorkItem] at h ⊢
    cases hfault : s.faults.deletes with
    | some e => rfl
    | none =>
      simp only [hfault] at h ⊢
      cases hget : s.objects.workItems[key]? with
      | none => rfl
      | some w => simp [hget, Except.map] at h
  | setFaults faults => simp [reply] at h

/-- A fault set for a request makes it fail. -/
theorem reply_of_fault (s : Store) (r : Request) {e : StoreError} (h : r.fault s.faults = some e) :
    s.reply r = .error e := by
  cases r with
  | createWorkItem stamp w =>
    have hfault : s.faults.nextCreate = some e := h
    simp [reply, createWorkItem, hfault, Except.map]
  | updateScheduleStatus x =>
    have hfault : s.faults.nextStatusUpdate = some e := h
    simp [reply, updateScheduleStatus_eq, hfault, Except.map]
  | updateWorkItemStatus w =>
    have hfault : s.faults.nextStatusUpdate = some e := h
    simp [reply, updateWorkItemStatus_eq, hfault, Except.map]
  | deleteWorkItem key =>
    have hfault : s.faults.deletes = some e := h
    simp [reply, deleteWorkItem, hfault, Except.map]
  | _ => simp [Request.fault] at h

/-! ## Updates that succeed -/

/-- An update of what is stored succeeds, and changes nothing else. -/
lemma update_of_get? (hr : r.Carries o) (hfault : r.fault s.faults = none)
    (hget : s.objects.get? o.kind o.key = some p) (hversion : p.version = o.version) :
    s.reply r = .ok (some (r.revise (s.version + 1) p)) ∧ s.stages r = [s.revised r p] := by
  cases r with
  | updateSchedule x =>
    obtain ⟨hkind, hkey, hv⟩ := hr
    rw [hkind, Listing.get?_schedule, ← hkey] at hget
    obtain ⟨current, hcurrent, rfl⟩ := Option.map_eq_some_iff.1 hget
    have hsame : current.metadata.version = x.metadata.version := hversion.trans hv.symm
    simp only [reply, stages, serve, updateSchedule, editSchedule, hcurrent, hsame,
      ne_eq, not_true_eq_false, if_false]
    exact ⟨rfl, rfl⟩
  | updateScheduleStatus x =>
    obtain ⟨hkind, hkey, hv⟩ := hr
    rw [hkind, Listing.get?_schedule, ← hkey] at hget
    obtain ⟨current, hcurrent, rfl⟩ := Option.map_eq_some_iff.1 hget
    have hsame : current.metadata.version = x.metadata.version := hversion.trans hv.symm
    have hfree : s.faults.nextStatusUpdate = none := hfault
    simp only [reply, stages, serve, updateScheduleStatus_eq, hfree, editSchedule, refuse, hcurrent, hsame,
      ne_eq, not_true_eq_false, if_false]
    exact ⟨rfl, rfl⟩
  | updateWorkItemStatus w =>
    obtain ⟨hkind, hkey, hv⟩ := hr
    rw [hkind, Listing.get?_workItem, ← hkey] at hget
    obtain ⟨current, hcurrent, rfl⟩ := Option.map_eq_some_iff.1 hget
    have hsame : current.metadata.version = w.metadata.version := hversion.trans hv.symm
    have hfree : s.faults.nextStatusUpdate = none := hfault
    simp only [reply, stages, serve, updateWorkItemStatus_eq, hfree, editWorkItem, refuse, hcurrent, hsame,
      ne_eq, not_true_eq_false, if_false]
    exact ⟨rfl, rfl⟩
  | _ => exact hr.elim

/-- An update succeeds only if what is stored has the version that it carries. -/
lemma get?_of_update {answer : Option Object} (hr : r.Carries o) (h : s.reply r = .ok answer) :
    ∃ p, s.objects.get? o.kind o.key = some p ∧ p.version = o.version := by
  cases r with
  | updateSchedule x =>
    obtain ⟨hkind, hkey, hv⟩ := hr
    obtain ⟨e, he⟩ | ⟨current, hcurrent, hsame, -⟩ := updateSchedule_cases s x
    · simp [reply, he, Except.map] at h
    · rw [hkind, Listing.get?_schedule, ← hkey, hcurrent]
      exact ⟨_, rfl, hsame.trans hv⟩
  | updateScheduleStatus x =>
    obtain ⟨hkind, hkey, hv⟩ := hr
    obtain ⟨e, t, he, -⟩ | ⟨current, hcurrent, hsame, -⟩ := updateScheduleStatus_cases s x
    · simp [reply, he, Except.map] at h
    · rw [hkind, Listing.get?_schedule, ← hkey, hcurrent]
      exact ⟨_, rfl, hsame.trans hv⟩
  | updateWorkItemStatus w =>
    obtain ⟨hkind, hkey, hv⟩ := hr
    obtain ⟨e, t, he, -⟩ | ⟨current, hcurrent, hsame, -⟩ := updateWorkItemStatus_cases s w
    · simp [reply, he, Except.map] at h
    · rw [hkind, Listing.get?_workItem, ← hkey, hcurrent]
      exact ⟨_, rfl, hsame.trans hv⟩
  | _ => exact hr.elim

end Store

/-- Of the objects ever stored under a key, only the one that was read has its version. -/
lemma Chronicle.get?_eq {stores : List Store} {s t : Store} {o p : Object} (h : Chronicle stores)
    (hs : s ∈ stores) (ht : t ∈ stores) (ho : o ∈ t.objects)
    (hget : s.objects.get? o.kind o.key = some p) (hversion : p.version = o.version) : p = o :=
  h.mem_eq hs ht ((h.keyed hs).mem hget) ho hversion

/-- A request that fails changes no data. An update of an object read earlier succeeds exactly when that
object is still stored as it was, and then changes only what it may of that object. -/
theorem Served.updates_lose_nothing {s : Store} {past : List Store} (h : Served (s :: past))
    (r : Request) :
    (∀ e, s.reply r = .error e →
      s.stages r = [{ s with calls := r.counted s.calls, faults := r.spent s.faults }]) ∧
    (∀ e, r.fault s.faults = some e → s.reply r = .error e) ∧
    ∀ t ∈ s :: past, ∀ o ∈ t.objects, r.Carries o → r.fault s.faults = none →
      ((∃ answer, s.reply r = .ok answer) ↔ s.objects.get? o.kind o.key = some o) ∧
      ∀ answer, s.reply r = .ok answer →
        answer = some (r.revise (s.version + 1) o) ∧
        s.stages r = [{ s with
          objects := s.objects.put (r.revise (s.version + 1) o)
          version := s.version + 1
          history := Store.remember s.history ⟨.modified, r.revise (s.version + 1) o⟩
          calls := r.counted s.calls
          faults := r.spent s.faults }] := by
  have hc := h.chronicle
  have hs : s ∈ s :: past := List.mem_cons_self
  refine ⟨fun e he => Store.stages_of_error (hc.keyed hs) r he, fun e he => s.reply_of_fault r he, ?_⟩
  intro t ht o ho hr hfault
  have hstored : ∀ answer, s.reply r = .ok answer → s.objects.get? o.kind o.key = some o := by
    intro answer hanswer
    obtain ⟨p, hget, hversion⟩ := Store.get?_of_update hr hanswer
    obtain rfl := hc.get?_eq hs ht ho hget hversion
    exact hget
  constructor
  · constructor
    · rintro ⟨answer, hanswer⟩
      exact hstored answer hanswer
    · intro hget
      exact ⟨_, (Store.update_of_get? hr hfault hget rfl).1⟩
  · intro answer hanswer
    obtain ⟨hreply, hstages⟩ := Store.update_of_get? hr hfault (hstored answer hanswer) rfl
    exact ⟨Except.ok.inj (hanswer.symm.trans hreply), hstages⟩

/-! ## A schedule created again -/

namespace Store

/-- The schedule as it is stored when it is created. -/
def lived (uid version : Nat) : Schedule :=
  { Schedule.minutely with metadata := { Schedule.minutely.metadata with uid := .ofNat uid, version } }

def firstLife : Store :=
  empty.serve (.createSchedule ⟨.ofNat 1, .ofSecond 0⟩ .minutely)

def secondLife : Store :=
  let gone := firstLife.serve (.deleteSchedule Schedule.minutely.metadata.key .background)
  gone.serve (.createSchedule ⟨.ofNat 2, .ofSecond 0⟩ .minutely)

lemma served_secondLife : ∃ past, firstLife ∈ secondLife :: past ∧ Served (secondLife :: past) := by
  have hfirst : Served (firstLife :: [.empty]) := .serve (.createSchedule _ _) .start
  have hgone := hfirst.request (.deleteSchedule Schedule.minutely.metadata.key .background)
  have hsecond := hgone.request (.createSchedule ⟨.ofNat 2, .ofSecond 0⟩ .minutely)
  refine ⟨_, ?_, hsecond⟩
  simp

end Store

/-- What was read of a schedule does not update its namesake that was created later; what is read of that one
does. -/
theorem Served.updates_lose_nothing_secondLife :
    (∃ past, Store.firstLife ∈ Store.secondLife :: past ∧ Served (Store.secondLife :: past)) ∧
      .schedule (Store.lived 1 1) ∈ Store.firstLife.objects ∧
      .schedule (Store.lived 2 3) ∈ Store.secondLife.objects ∧
      (¬∃ answer, Store.secondLife.reply (.updateScheduleStatus (Store.lived 1 1)) = .ok answer) ∧
      ∃ answer, Store.secondLife.reply (.updateScheduleStatus (Store.lived 2 3)) = .ok answer := by
  have hread : .schedule (Store.lived 1 1) ∈ Store.firstLife.objects :=
    Listing.mem_def.2 (by decide +kernel)
  have hreread : .schedule (Store.lived 2 3) ∈ Store.secondLife.objects :=
    Listing.mem_def.2 (by decide +kernel)
  have hother : Store.secondLife.objects.get? .schedule Schedule.minutely.metadata.key ≠
      some (.schedule (Store.lived 1 1)) := by decide +kernel
  have hfree : Store.secondLife.faults.nextStatusUpdate = none := by decide +kernel
  obtain ⟨past, hfirst, hserved⟩ := Store.served_secondLife
  refine ⟨⟨past, hfirst, hserved⟩, hread, hreread, ?_, ?_⟩
  · have hstale := Served.updates_lose_nothing hserved (.updateScheduleStatus (Store.lived 1 1))
    have hexact := (hstale.2.2 _ hfirst _ hread ⟨rfl, rfl, rfl⟩ hfree).1
    exact fun hanswer => hother (hexact.1 hanswer)
  · have hfresh := Served.updates_lose_nothing hserved (.updateScheduleStatus (Store.lived 2 3))
    have hexact := (hfresh.2.2 _ List.mem_cons_self _ hreread ⟨rfl, rfl, rfl⟩ hfree).1
    exact hexact.2 hreread

end Timetable
