import Timetable.Proofs.Identity.Name
import Timetable.Proofs.Store.Listing

/-!
# Requests to a store

What each request does to the data of a store: nothing, or one commit whose object the lemma names.
Deleting a schedule commits once for the schedule and once for each of its children.
-/

namespace Timetable

/-- What a client asks of a store. To make later requests fail is a request too. -/
inductive Request
  | createSchedule (stamp : Stamp) (x : Schedule)
  | updateSchedule (x : Schedule)
  | updateScheduleStatus (x : Schedule)
  | deleteSchedule (key : Key) (propagation : Propagation)
  | createWorkItem (stamp : Stamp) (w : WorkItem)
  | updateWorkItemStatus (w : WorkItem)
  | deleteWorkItem (key : Key)
  | setFaults (faults : Faults)

namespace Store
variable {s t u : Store}

def serve (s : Store) : Request → Store
  | .createSchedule stamp x => (s.createSchedule stamp x).2
  | .updateSchedule x => (s.updateSchedule x).2
  | .updateScheduleStatus x => (s.updateScheduleStatus x).2
  | .deleteSchedule key propagation => (s.deleteSchedule key propagation).2
  | .createWorkItem stamp w => (s.createWorkItem stamp w).2
  | .updateWorkItemStatus w => (s.updateWorkItemStatus w).2
  | .deleteWorkItem key => (s.deleteWorkItem key).2
  | .setFaults faults => { s with faults }

/-! ## Deleted schedules -/

section
variable {propagation : Propagation} {owner : Meta} {key : Key} {w : WorkItem} {ws : List WorkItem}

/-- The store once a child was deleted with its schedule or freed from it. -/
def release (propagation : Propagation) (owner : Meta) (s : Store) (w : WorkItem) : Store :=
  match propagation with
  | .background => s.commit .deleted (.workItem w)
  | .orphan =>
    let owners := w.metadata.owners.filter fun r => r.uid != owner.uid
    s.commit .modified (.workItem { w with metadata := { w.metadata with owners } })

lemma workItems_release (propagation : Propagation) (owner : Meta) (s : Store) (hother : w.metadata.key ≠ key) :
    (release propagation owner s w).objects.workItems[key]? = s.objects.workItems[key]? := by
  cases propagation with
  | background =>
    change (s.objects.workItems.erase w.metadata.key)[key]? = _
    rw [KeyMap.getElem?_erase, if_neg hother]
  | orphan =>
    change (s.objects.workItems.insert w.metadata.key _)[key]? = _
    rw [KeyMap.getElem?_insert, if_neg hother]

/-- A child that is stored as it was is dismissed. -/
lemma dismiss_eq (hstored : s.objects.workItems[w.metadata.key]? = some w) :
    s.dismiss propagation owner w.metadata.key w.metadata.version = (.ok (), release propagation owner s w) := by
  cases propagation with
  | background => simp only [dismiss, removeWorkItem, hstored, release]
  | orphan =>
    simp only [dismiss, editWorkItem, hstored, ne_eq, not_true_eq_false, if_false, release]
    rfl

/-- Each child is still stored as it was when its turn comes, so that no dismissal fails. -/
theorem dismissAll_eq (hkeys : (ws.map (·.metadata.key)).Nodup)
    (hstored : ∀ w ∈ ws, s.objects.workItems[w.metadata.key]? = some w) :
    s.dismissAll propagation owner (ws.map fun w => (w.metadata.key, w.metadata.version)) =
      (.ok (), ws.foldl (release propagation owner) s) := by
  induction ws generalizing s with
  | nil => rfl
  | cons w ws ih =>
    rw [List.map_cons, List.nodup_cons] at hkeys
    rw [List.map_cons, dismissAll, dismiss_eq (hstored w List.mem_cons_self)]
    refine ih hkeys.2 fun v hv => ?_
    have hother : w.metadata.key ≠ v.metadata.key := by
      intro hkey
      exact hkeys.1 (hkey ▸ List.mem_map_of_mem hv)
    rw [workItems_release propagation owner s hother]
    exact hstored v (List.mem_cons_of_mem w hv)

/-- A schedule that is there is deleted, and no child stops it. -/
theorem deleteSchedule_eq (hkeyed : s.objects.Keyed) (key : Key) (propagation : Propagation) :
    s.deleteSchedule key propagation = match s.objects.schedules[key]? with
      | none => (.error (.notFound Kind.schedule.name key), s)
      | some x =>
        let gone := s.commit .deleted (.schedule x)
        (.ok (), (gone.objects.items.filter fun w => w.metadata.isControlledBy x.metadata).foldl
          (release propagation x.metadata) gone) := by
  unfold deleteSchedule
  cases s.objects.schedules[key]? with
  | none => rfl
  | some x =>
    have hafter : (s.commit .deleted (.schedule x)).objects.Keyed :=
      hkeyed.apply ⟨.deleted, (Object.schedule x).withVersion (s.version + 1)⟩
    refine dismissAll_eq ?_ fun w hw => ?_
    · exact hafter.nodup_items.sublist (List.filter_sublist.map _)
    · exact hafter.mem_items.1 (List.mem_of_mem_filter hw)

end

/-- The stores from `s` on while children are released one by one, the last one first. -/
def releases (propagation : Propagation) (owner : Meta) (s : Store) : List WorkItem → List Store
  | [] => [s]
  | w :: rest => releases propagation owner (release propagation owner s w) rest ++ [s]

/-- The stores that a request passes through, the last one first. -/
def stages (s : Store) : Request → List Store
  | .deleteSchedule key propagation =>
    match s.objects.schedules[key]? with
    | none => [s]
    | some x =>
      let gone := s.commit .deleted (.schedule x)
      releases propagation x.metadata gone
        (gone.objects.items.filter fun w => w.metadata.isControlledBy x.metadata)
  | r => [s.serve r]

lemma releases_head (propagation : Propagation) (owner : Meta) (s : Store) (ws : List WorkItem) :
    ∃ rest, releases propagation owner s ws = ws.foldl (release propagation owner) s :: rest := by
  induction ws generalizing s with
  | nil => exact ⟨[], rfl⟩
  | cons w ws ih =>
    obtain ⟨rest, hrest⟩ := ih (release propagation owner s w)
    exact ⟨rest ++ [s], by rw [releases, hrest]; rfl⟩

theorem stages_head (hkeyed : s.objects.Keyed) (r : Request) : ∃ rest, s.stages r = s.serve r :: rest := by
  cases r with
  | deleteSchedule key propagation =>
    simp only [stages, serve, deleteSchedule_eq hkeyed]
    cases s.objects.schedules[key]? with
    | none => exact ⟨[], rfl⟩
    | some x => exact releases_head _ _ _ _
  | _ => exact ⟨[], rfl⟩

lemma stages_tail (hkeyed : s.objects.Keyed) (r : Request) :
    s.serve r :: (s.stages r).tail = s.stages r := by
  obtain ⟨rest, hrest⟩ := stages_head hkeyed r
  rw [hrest]
  rfl

/-! ## Data

Requests may change which later requests fail and count calls; the data are the rest. -/

structure SameData (s t : Store) : Prop where
  objects : s.objects = t.objects
  version : s.version = t.version
  history : s.history = t.history

lemma SameData.refl (s : Store) : SameData s s := ⟨rfl, rfl, rfl⟩

lemma SameData.symm (h : SameData s t) : SameData t s :=
  ⟨h.objects.symm, h.version.symm, h.history.symm⟩

lemma SameData.trans (h : SameData s t) (h' : SameData t u) : SameData s u :=
  ⟨h.objects.trans h'.objects, h.version.trans h'.version, h.history.trans h'.history⟩

@[simp]
lemma commit_version (s : Store) (type : ChangeType) (o : Object) :
    (s.commit type o).version = s.version + 1 := rfl

lemma commit_objects (s : Store) (type : ChangeType) (o : Object) :
    (s.commit type o).objects = s.objects.apply ⟨type, o.withVersion (s.version + 1)⟩ := rfl

lemma commit_history (s : Store) (type : ChangeType) (o : Object) :
    (s.commit type o).history = remember s.history ⟨type, o.withVersion (s.version + 1)⟩ := by
  simp only [commit]

lemma SameData.commit (h : SameData s t) (type : ChangeType) (o : Object) :
    SameData (s.commit type o) (t.commit type o) := by
  constructor
  · rw [commit_objects, commit_objects, h.objects, h.version]
  · rw [commit_version, commit_version, h.version]
  · rw [commit_history, commit_history, h.history, h.version]

/-! ## Single requests -/

theorem insertNew_cases (s : Store) (stamp : Stamp) (o : Object) :
    (∃ e, s.insertNew stamp o = (.error e, s)) ∨
      s.objects.get? o.kind o.key = none ∧
      (∃ key, Key.of? o.key.space o.key.name = .ok key) ∧
      s.insertNew stamp o =
        (.ok (stamped o stamp (s.version + 1)), s.commit .added (stamped o stamp (s.version + 1))) := by
  unfold insertNew
  split
  · exact Or.inl ⟨_, rfl⟩
  · rename_i key hkey
    obtain ⟨-, -, hown⟩ := Key.of?_eq_ok_iff.1 hkey
    change key = o.key at hown
    subst hown
    split_ifs with htaken
    · exact Or.inl ⟨_, rfl⟩
    · exact Or.inr ⟨Option.not_isSome_iff_eq_none.1 htaken, ⟨_, hkey⟩, rfl⟩

def newSchedule (s : Store) (stamp : Stamp) (x : Schedule) : Schedule :=
  { x with metadata := { x.metadata with
      uid := stamp.uid, created := stamp.time, version := s.version + 1 } }

def newWorkItem (s : Store) (stamp : Stamp) (w : WorkItem) : WorkItem :=
  { w with metadata := { w.metadata with
      uid := stamp.uid, created := stamp.time, version := s.version + 1 } }

theorem createSchedule_cases (s : Store) (stamp : Stamp) (x : Schedule) :
    (∃ e, s.createSchedule stamp x = (.error e, s)) ∨
      s.objects.schedules[x.metadata.key]? = none ∧
      (∃ key, Key.of? x.metadata.space x.metadata.name = .ok key) ∧
      s.createSchedule stamp x =
        (.ok (s.newSchedule stamp x), s.commit .added (.schedule (s.newSchedule stamp x))) := by
  unfold createSchedule
  split
  · exact Or.inl ⟨_, rfl⟩
  · obtain ⟨e, he⟩ | ⟨hfree, hkey, hok⟩ := insertNew_cases s stamp (.schedule x)
    · exact Or.inl ⟨e, by rw [he]⟩
    · refine Or.inr ⟨?_, hkey, by rw [hok]; rfl⟩
      simpa [Object.kind, Object.key, Object.metadata] using hfree

theorem createWorkItem_cases (s : Store) (stamp : Stamp) (w : WorkItem) :
    (∃ e t, s.createWorkItem stamp w = (.error e, t) ∧ SameData t s) ∨
      s.objects.workItems[w.metadata.key]? = none ∧
      ∃ t, s.createWorkItem stamp w = (.ok (s.newWorkItem stamp w), t) ∧
        SameData t (s.commit .added (.workItem (s.newWorkItem stamp w))) := by
  let counted : Store := { s with calls := { s.calls with creates := s.calls.creates + 1 } }
  have hcounted : SameData counted s := ⟨rfl, rfl, rfl⟩
  unfold createWorkItem
  dsimp only
  split
  · exact Or.inl ⟨_, _, rfl, ⟨rfl, rfl, rfl⟩⟩
  · obtain ⟨e, he⟩ | ⟨hfree, -, hok⟩ := insertNew_cases counted stamp (.workItem w)
    · exact Or.inl ⟨e, counted, by rw [he], hcounted⟩
    · refine Or.inr ⟨?_, _, by rw [hok]; rfl, hcounted.commit _ _⟩
      simpa [Object.kind, Object.key, Object.metadata] using hfree

theorem editSchedule_cases (s : Store) (key : Key) (expected : Nat) (edit : Schedule → Schedule) :
    (∃ e, s.editSchedule key expected edit = (.error e, s)) ∨
      ∃ x, s.objects.schedules[key]? = some x ∧ x.metadata.version = expected ∧
        let y := { edit x with metadata := { (edit x).metadata with version := s.version + 1 } }
        s.editSchedule key expected edit = (.ok y, s.commit .modified (.schedule y)) := by
  unfold editSchedule
  split
  · exact Or.inl ⟨_, rfl⟩
  · rename_i x hx
    split_ifs with hversion
    · exact Or.inl ⟨_, rfl⟩
    · exact Or.inr ⟨x, hx, not_not.1 hversion, rfl⟩

theorem editWorkItem_cases (s : Store) (key : Key) (expected : Nat) (edit : WorkItem → WorkItem) :
    (∃ e, s.editWorkItem key expected edit = (.error e, s)) ∨
      ∃ w, s.objects.workItems[key]? = some w ∧ w.metadata.version = expected ∧
        let v := { edit w with metadata := { (edit w).metadata with version := s.version + 1 } }
        s.editWorkItem key expected edit = (.ok v, s.commit .modified (.workItem v)) := by
  unfold editWorkItem
  split
  · exact Or.inl ⟨_, rfl⟩
  · rename_i w hw
    split_ifs with hversion
    · exact Or.inl ⟨_, rfl⟩
    · exact Or.inr ⟨w, hw, not_not.1 hversion, rfl⟩

/-- A stored schedule after an edit of its labels, annotations and spec. -/
def edited (s : Store) (x current : Schedule) : Schedule :=
  { current with
    metadata := { current.metadata with
      labels := x.metadata.labels, annotations := x.metadata.annotations, version := s.version + 1 }
    spec := x.spec }

theorem updateSchedule_cases (s : Store) (x : Schedule) :
    (∃ e, s.updateSchedule x = (.error e, s)) ∨
      ∃ current, s.objects.schedules[x.metadata.key]? = some current ∧
        current.metadata.version = x.metadata.version ∧
        s.updateSchedule x =
          (.ok (s.edited x current), s.commit .modified (.schedule (s.edited x current))) :=
  editSchedule_cases s x.metadata.key x.metadata.version _

/-- A stored schedule with the status of another one. -/
def withStatusOf (s : Store) (x current : Schedule) : Schedule :=
  { current with
    metadata := { current.metadata with version := s.version + 1 }
    status := x.status }

theorem updateScheduleStatus_cases (s : Store) (x : Schedule) :
    (∃ e t, s.updateScheduleStatus x = (.error e, t) ∧ SameData t s) ∨
      ∃ current, s.objects.schedules[x.metadata.key]? = some current ∧
        current.metadata.version = x.metadata.version ∧
        ∃ t, s.updateScheduleStatus x = (.ok (s.withStatusOf x current), t) ∧
          SameData t (s.commit .modified (.schedule (s.withStatusOf x current))) := by
  unfold updateScheduleStatus
  cases hf : s.takeStatusFault with
  | mk fault t =>
    have ht : SameData t s := by
      unfold takeStatusFault at hf
      rw [← (Prod.mk.inj hf).2]
      exact ⟨rfl, rfl, rfl⟩
    cases fault with
    | some e => exact Or.inl ⟨e, t, rfl, ht⟩
    | none =>
      obtain ⟨e, he⟩ | ⟨current, hx, hv, hok⟩ := editSchedule_cases t x.metadata.key
        x.metadata.version fun current => { current with status := x.status }
      · exact Or.inl ⟨e, t, he, ht⟩
      · refine Or.inr ⟨current, by rw [← ht.objects]; exact hx, hv, _, ?_, ht.commit _ _⟩
        dsimp only at hok ⊢
        rw [hok, ht.version]
        rfl

def withItemStatusOf (s : Store) (w current : WorkItem) : WorkItem :=
  { current with
    metadata := { current.metadata with version := s.version + 1 }
    status := w.status }

theorem updateWorkItemStatus_cases (s : Store) (w : WorkItem) :
    (∃ e t, s.updateWorkItemStatus w = (.error e, t) ∧ SameData t s) ∨
      ∃ current, s.objects.workItems[w.metadata.key]? = some current ∧
        current.metadata.version = w.metadata.version ∧
        ∃ t, s.updateWorkItemStatus w = (.ok (s.withItemStatusOf w current), t) ∧
          SameData t (s.commit .modified (.workItem (s.withItemStatusOf w current))) := by
  unfold updateWorkItemStatus
  cases hf : s.takeStatusFault with
  | mk fault t =>
    have ht : SameData t s := by
      unfold takeStatusFault at hf
      rw [← (Prod.mk.inj hf).2]
      exact ⟨rfl, rfl, rfl⟩
    cases fault with
    | some e => exact Or.inl ⟨e, t, rfl, ht⟩
    | none =>
      obtain ⟨e, he⟩ | ⟨current, hw, hv, hok⟩ := editWorkItem_cases t w.metadata.key
        w.metadata.version fun current => { current with status := w.status }
      · exact Or.inl ⟨e, t, he, ht⟩
      · refine Or.inr ⟨current, by rw [← ht.objects]; exact hw, hv, _, ?_, ht.commit _ _⟩
        dsimp only at hok ⊢
        rw [hok, ht.version]
        rfl

theorem deleteWorkItem_cases (s : Store) (key : Key) :
    (∃ e t, s.deleteWorkItem key = (.error e, t) ∧ SameData t s) ∨
      ∃ w, s.objects.workItems[key]? = some w ∧
        ∃ t, s.deleteWorkItem key = (.ok (), t) ∧
          SameData t (s.commit .deleted (.workItem w)) := by
  unfold deleteWorkItem removeWorkItem
  dsimp only
  split
  · exact Or.inl ⟨_, _, rfl, ⟨rfl, rfl, rfl⟩⟩
  · split
    · exact Or.inl ⟨_, _, rfl, ⟨rfl, rfl, rfl⟩⟩
    · rename_i w hw
      exact Or.inr ⟨w, hw, _, rfl, ⟨rfl, rfl, rfl⟩⟩

/-! ## Effects -/

/-- What a request that deletes no schedule makes of a store: its data stay, or one commit is made. A new object
takes a key that is free, an edit keeps key and UID, and only a deletion by key takes a work item out. -/
inductive Effect (s t : Store) (r : Request) : Prop
  | same : SameData t s → Effect s t r
  | added (o : Object) : s.objects.get? o.kind o.key = none →
      (∀ x, o = .schedule x → ∃ stamp y, r = .createSchedule stamp y ∧ x.metadata.uid = stamp.uid) →
      SameData t (s.commit .added o) → Effect s t r
  | modified (o p : Object) (key : Key) : s.objects.get? o.kind key = some p → o.key = p.key →
      o.metadata.uid = p.metadata.uid → SameData t (s.commit .modified o) → Effect s t r
  | deleted (w : WorkItem) (key : Key) : s.objects.workItems[key]? = some w → r = .deleteWorkItem key →
      SameData t (s.commit .deleted (.workItem w)) → Effect s t r

theorem serve_effect (s : Store) {r : Request} (hr : ∀ key propagation, r ≠ .deleteSchedule key propagation) :
    Effect s (s.serve r) r := by
  cases r with
  | createSchedule stamp x =>
    obtain ⟨e, he⟩ | ⟨hfree, -, hok⟩ := createSchedule_cases s stamp x
    · exact .same (by simp only [serve, he]; exact SameData.refl _)
    · refine .added (.schedule (s.newSchedule stamp x)) (Option.map_eq_none_iff.2 hfree) ?_
        (by simp only [serve, hok]; exact SameData.refl _)
      intro y hy
      exact ⟨stamp, x, rfl, by rw [← Object.schedule.inj hy]; rfl⟩
  | updateSchedule x =>
    obtain ⟨e, he⟩ | ⟨current, hget, -, hok⟩ := updateSchedule_cases s x
    · exact .same (by simp only [serve, he]; exact SameData.refl _)
    · exact .modified (.schedule (s.edited x current)) (.schedule current) x.metadata.key
        (Option.map_eq_some_iff.2 ⟨current, hget, rfl⟩) rfl rfl (by simp only [serve, hok]; exact SameData.refl _)
  | updateScheduleStatus x =>
    obtain ⟨e, t, he, ht⟩ | ⟨current, hget, -, t, hok, ht⟩ := updateScheduleStatus_cases s x
    · exact .same (by simp only [serve, he]; exact ht)
    · exact .modified (.schedule (s.withStatusOf x current)) (.schedule current) x.metadata.key
        (Option.map_eq_some_iff.2 ⟨current, hget, rfl⟩) rfl rfl (by simp only [serve, hok]; exact ht)
  | deleteSchedule key propagation => exact absurd rfl (hr key propagation)
  | createWorkItem stamp w =>
    obtain ⟨e, t, he, ht⟩ | ⟨hfree, t, hok, ht⟩ := createWorkItem_cases s stamp w
    · exact .same (by simp only [serve, he]; exact ht)
    · exact .added (.workItem (s.newWorkItem stamp w)) (Option.map_eq_none_iff.2 hfree)
        (fun x hx => Object.noConfusion hx) (by simp only [serve, hok]; exact ht)
  | updateWorkItemStatus w =>
    obtain ⟨e, t, he, ht⟩ | ⟨current, hget, -, t, hok, ht⟩ := updateWorkItemStatus_cases s w
    · exact .same (by simp only [serve, he]; exact ht)
    · exact .modified (.workItem (s.withItemStatusOf w current)) (.workItem current) w.metadata.key
        (Option.map_eq_some_iff.2 ⟨current, hget, rfl⟩) rfl rfl (by simp only [serve, hok]; exact ht)
  | deleteWorkItem key =>
    obtain ⟨e, t, he, ht⟩ | ⟨w, hget, t, hok, ht⟩ := deleteWorkItem_cases s key
    · exact .same (by simp only [serve, he]; exact ht)
    · exact .deleted w key hget rfl (by simp only [serve, hok]; exact ht)
  | setFaults faults => exact .same ⟨rfl, rfl, rfl⟩

/-! ## Turns -/

/-- A store leaves its data alone or commits one change. -/
def Turn (s t : Store) : Prop :=
  SameData t s ∨ ∃ type o, SameData t (s.commit type o)

/-- Consecutive stores, the last one first, each make one turn. -/
def Turns : List Store → Store → Prop
  | [], _ => True
  | t :: rest, s => Turn (rest.headD s) t ∧ Turns rest s

lemma Turns.append {new old : List Store} (hn : Turns new (old.headD s)) (ho : Turns old s) :
    Turns (new ++ old) s := by
  induction new with
  | nil => exact ho
  | cons t rest ih =>
    refine ⟨?_, ih hn.2⟩
    cases rest with
    | nil => simpa using hn.1
    | cons t' rest => exact hn.1

lemma release_turn (propagation : Propagation) (owner : Meta) (s : Store) (w : WorkItem) :
    Turn s (release propagation owner s w) := by
  cases propagation <;> exact Or.inr ⟨_, _, SameData.refl _⟩

lemma releases_turns (propagation : Propagation) (owner : Meta) (s t : Store) (ws : List WorkItem)
    (h : Turn s t) : Turns (releases propagation owner t ws) s := by
  induction ws generalizing s t with
  | nil => exact ⟨h, trivial⟩
  | cons w ws ih =>
    refine Turns.append ?_ ⟨h, trivial⟩
    exact ih t (release propagation owner t w) (release_turn propagation owner t w)

lemma Effect.turn {r : Request} (h : Effect s t r) : Turn s t := by
  cases h with
  | same hsame => exact Or.inl hsame
  | added o _ _ hdata => exact Or.inr ⟨_, _, hdata⟩
  | modified o p _ _ _ _ hdata => exact Or.inr ⟨_, _, hdata⟩
  | deleted w _ _ _ hdata => exact Or.inr ⟨_, _, hdata⟩

/-- Every request takes the store through turns. -/
theorem stages_turns (s : Store) (r : Request) : Turns (s.stages r) s := by
  cases r with
  | deleteSchedule key propagation =>
    unfold stages
    dsimp only
    split
    · exact ⟨Or.inl (SameData.refl _), trivial⟩
    · exact releases_turns _ _ _ _ _ (Or.inr ⟨_, _, SameData.refl _⟩)
  | _ => exact ⟨(serve_effect s (by simp)).turn, trivial⟩

end Store

/-- A schedule that launches a work item every minute. -/
def Schedule.minutely : Schedule where
  metadata := Meta.new "jobs" "tick" .blank
  spec := ⟨"@every 1m", .allow, false, none, none, none, ⟨∅, ∅, .bool true⟩⟩
  status := .initial

end Timetable
