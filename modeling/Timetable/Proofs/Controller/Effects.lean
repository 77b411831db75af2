import Timetable.Proofs.Controller.Calls
import Timetable.Proofs.Cron.Walk
import Timetable.Proofs.Object.Launch
import Timetable.Proofs.Replica.Current
import Timetable.Proofs.Store.Atomicity

/-!
# What an undisturbed pass does

When nothing makes a call fail and nobody else writes, each part of a pass has a definite effect: the status
is written, the children named are deleted, and a work item is created unless it is refused, which does not
depend on who asks or when. A part that is at rest changes nothing.
-/

namespace Timetable

/-- Nothing makes a call fail, and the clock shows `now`. -/
structure Site.Calm (now : Instant) (site : Site) : Prop where
  keyed : site.store.objects.Keyed
  faults : site.store.faults = ⟨none, none, none⟩
  clock : site.clock = now

namespace Client
variable {α β : Type}

/-- Run without interruption, a client gives an answer and leaves another site. -/
def Ends (c : Client α) (site : Site) (a : α) (after : Site) : Prop :=
  ∃ uids minted rest, c.run uids site minted = (a, after, rest)

/-- With these work items and at this time a client gives an answer and changes no data. -/
def Rests (items : KeyMap WorkItem) (now : Instant) (c : Client α) (a : α) : Prop :=
  ∀ site b after, site.Calm now → site.store.objects.workItems = items → c.Ends site b after →
    b = a ∧ Store.SameData after.store site.store ∧ after.Calm now

variable {c : Client α} {f : α → Client β} {site after : Site} {a : α} {b : β} {now : Instant}
  {items : KeyMap WorkItem}

theorem run_andThen (uids : Nat → Uid) (c : Client α) (f : α → Client β) (site : Site) (minted : Nat) :
    (c.andThen f).run uids site minted =
      (f (c.run uids site minted).1).run uids (c.run uids site minted).2.1
        (c.run uids site minted).2.2 := by
  induction c generalizing site minted with
  | done a => rfl
  | listItems next ih => exact ih _ site minted
  | writeScheduleStatus x next ih => exact ih _ _ minted
  | createItem w next ih => exact ih _ _ _
  | writeItemStatus w next ih => exact ih _ _ minted
  | deleteItem key next ih => exact ih _ _ minted
  | readClock next ih => exact ih _ site minted
  | note r next ih => exact ih _ minted

lemma Ends.of_andThen (h : (c.andThen f).Ends site b after) :
    ∃ a mid, c.Ends site a mid ∧ (f a).Ends mid b after := by
  obtain ⟨uids, minted, rest, hrun⟩ := h
  rw [run_andThen] at hrun
  exact ⟨_, _, ⟨uids, minted, _, rfl⟩, ⟨uids, _, rest, hrun⟩⟩

lemma Ends.of_done {a' : α} (h : (done a).Ends site a' after) : a' = a ∧ after = site := by
  obtain ⟨uids, minted, rest, hrun⟩ := h
  unfold run at hrun
  simp only [Prod.mk.injEq] at hrun
  exact ⟨hrun.1.symm, hrun.2.1.symm⟩

lemma Ends.of_note {r : Record} {next : Client α} (h : (note r next).Ends site a after) :
    next.Ends { site with records := r :: site.records } a after := h

lemma Ends.of_readClock {next : Instant → Client α} (h : (readClock next).Ends site a after) :
    (next site.clock).Ends site a after := h

lemma Ends.of_writeScheduleStatus {x : Schedule} {next : Except StoreError Schedule → Client α}
    (h : (writeScheduleStatus x next).Ends site a after) :
    (next (site.store.updateScheduleStatus x).1).Ends
      { site with store := (site.store.updateScheduleStatus x).2 } a after := h

lemma Ends.of_deleteItem {key : Key} {next : Except StoreError Unit → Client α}
    (h : (deleteItem key next).Ends site a after) :
    (next (site.store.deleteWorkItem key).1).Ends
      { site with store := (site.store.deleteWorkItem key).2 } a after := h

lemma Ends.of_createItem {w : WorkItem} {next : Except StoreError WorkItem → Client α}
    (h : (createItem w next).Ends site a after) :
    ∃ stamp, (next (site.store.createWorkItem stamp w).1).Ends
      { site with store := (site.store.createWorkItem stamp w).2 } a after := by
  obtain ⟨uids, minted, rest, hrun⟩ := h
  exact ⟨⟨uids minted, site.clock⟩, uids, _, rest, hrun⟩

/-- A client at work takes its store on from turn to turn. -/
lemma Ends.chronicle {past : List Store} (h : c.Ends site a after) (hc : Chronicle (site.store :: past)) :
    ∃ before, Chronicle (after.store :: before) := by
  obtain ⟨uids, minted, rest, hrun⟩ := h
  obtain ⟨stamps, hsteps⟩ := run_steps uids c site minted
  have hwalk : ∀ (stamps : List Stamp) (c : Client α) (site : Site) (past : List Store),
      Chronicle (site.store :: past) →
        ∃ before, Chronicle ((c.steps stamps site).2.store :: before) := by
    intro stamps
    induction stamps with
    | nil => exact fun _ _ past hc => ⟨past, hc⟩
    | cons stamp stamps ih =>
      intro c site past hc
      exact ih (c.step stamp site).1 (c.step stamp site).2 _ (.turn hc (step_turn c))
  have hafter := hwalk stamps c site past hc
  rw [hsteps, hrun] at hafter
  exact hafter

lemma rests_done (items : KeyMap WorkItem) (now : Instant) (a : α) : (done a).Rests items now a := by
  intro site b after hcalm _ h
  obtain ⟨rfl, rfl⟩ := h.of_done
  exact ⟨rfl, Store.SameData.refl _, hcalm⟩

lemma Rests.note {r : Record} (h : c.Rests items now a) : (note r c).Rests items now a := by
  intro site b after hcalm hitems hends
  exact h { site with records := r :: site.records } b after ⟨hcalm.keyed, hcalm.faults, hcalm.clock⟩
    hitems hends.of_note

lemma Rests.readClock {next : Instant → Client α} (h : (next now).Rests items now a) :
    (readClock next).Rests items now a := by
  intro site b after hcalm hitems hends
  have hnext := hends.of_readClock
  rw [hcalm.clock] at hnext
  exact h site b after hcalm hitems hnext

end Client

/-- Why a work item is refused where these are stored, if it is. -/
def WorkItem.refusal (items : KeyMap WorkItem) (w : WorkItem) : Option StoreError :=
  match Key.of? w.metadata.space w.metadata.name with
  | .error e => some (.invalid e.message)
  | .ok key =>
    if items[key]?.isSome then some (.alreadyExists Kind.workItem.name key) else none

namespace WorkItem
variable {items : KeyMap WorkItem} {w : WorkItem}

lemma refusal_eq_none_iff : w.refusal items = none ↔
    (∃ key, Key.of? w.metadata.space w.metadata.name = .ok key) ∧ items[w.metadata.key]? = none := by
  unfold refusal
  cases hkey : Key.of? w.metadata.space w.metadata.name with
  | error e => simp
  | ok key =>
    obtain ⟨-, -, hown⟩ := Key.of?_eq_ok_iff.1 hkey
    change key = w.metadata.key at hown
    subst hown
    simp

/-- A work item is refused because its names are not valid, or because its key is taken. -/
lemma refusal_cases {e : StoreError} (h : w.refusal items = some e) :
    (∃ reason, e = .invalid reason) ∨
      ∃ kind taken, e = .alreadyExists kind taken ∧ ∃ v, items[w.metadata.key]? = some v := by
  unfold refusal at h
  split at h
  · exact Or.inl ⟨_, (Option.some.inj h).symm⟩
  · rename_i key hkey
    obtain ⟨-, -, hown⟩ := Key.of?_eq_ok_iff.1 hkey
    change key = w.metadata.key at hown
    split_ifs at h with htaken
    rw [hown] at htaken
    exact Or.inr ⟨_, _, (Option.some.inj h).symm, Option.isSome_iff_exists.1 htaken⟩

end WorkItem

namespace Store
variable {s : Store} {stamp : Stamp} {w : WorkItem}

/-- What a creation does that no fault concerns. -/
theorem createWorkItem_eq (hfree : s.faults.nextCreate = none) (stamp : Stamp) (w : WorkItem) :
    s.createWorkItem stamp w = match w.refusal s.objects.workItems with
      | some e => (.error e, s.refuse (.createWorkItem stamp w))
      | none => (.ok (s.newWorkItem stamp w),
          (s.refuse (.createWorkItem stamp w)).commit .added (.workItem (s.newWorkItem stamp w))) := by
  have hfaults : { s.faults with nextCreate := none } = s.faults := by rw [← hfree]
  unfold createWorkItem insertNew WorkItem.refusal refuse
  simp only [hfree, Request.counted, Request.spent, hfaults]
  have hspace : (Object.workItem w).key.space = w.metadata.space := rfl
  have hname : (Object.workItem w).key.name = w.metadata.name := rfl
  rw [hspace, hname]
  cases Key.of? w.metadata.space w.metadata.name with
  | error e => rfl
  | ok key =>
    have hget : s.objects.get? (Object.workItem w).kind key =
        s.objects.workItems[key]?.map .workItem := rfl
    dsimp only
    rw [hget, Option.isSome_map]
    by_cases htaken : s.objects.workItems[key]?.isSome
    · rw [if_pos htaken, if_pos htaken]
      rfl
    · rw [if_neg htaken, if_neg htaken]
      rfl

/-- A deletion that no fault concerns erases the key. -/
lemma deleteWorkItem_calm (hfree : s.faults.deletes = none) (hkeyed : s.objects.Keyed) (key : Key) :
    (s.deleteWorkItem key).2.objects = s.objects.erase .workItem key ∧
      (s.deleteWorkItem key).2.faults = s.faults := by
  unfold deleteWorkItem removeWorkItem
  simp only [hfree]
  cases hget : s.objects.workItems[key]? with
  | some w =>
    have hkey := hkeyed.workItem_key hget
    constructor
    · change s.objects.erase .workItem w.metadata.key = _
      rw [hkey]
    · rfl
  | none =>
    constructor
    · apply Listing.ext_get?
      intro kind other
      dsimp only
      rw [Listing.get?_erase]
      split_ifs with hsame
      · rw [← hsame.1, ← hsame.2, Listing.get?_workItem, hget]
        rfl
      · rfl
    · rfl

/-- A status update that carries the stored version is made. -/
lemma updateScheduleStatus_calm {x y : Schedule} (hfree : s.faults.nextStatusUpdate = none)
    (hget : s.objects.schedules[x.metadata.key]? = some y) (hversion : y.metadata.version = x.metadata.version) :
    s.updateScheduleStatus x = (.ok (s.withStatusOf x y),
      (s.refuse (.updateScheduleStatus x)).commit .modified (.schedule (s.withStatusOf x y))) := by
  rw [updateScheduleStatus_eq]
  simp only [hfree]
  unfold editSchedule refuse
  simp only [hget, hversion, ne_eq, not_true_eq_false, if_false]
  rfl

end Store

namespace Pass
variable {site after : Site} {now : Instant} {key : Key} {ws : List WorkItem} {a : Unit}

lemma noteAll_ends {α : Type} {notices : List Notice} {f : Unit → Client α} {a : α}
    (h : ((noteAll key notices).andThen f).Ends site a after) :
    ∃ records, (f ()).Ends { site with records } a after := by
  induction notices generalizing site with
  | nil => exact ⟨site.records, h⟩
  | cons n notices ih =>
    have hrest : ((noteAll key notices).andThen f).Ends
        { site with records := ⟨key, n⟩ :: site.records } a after := h
    obtain ⟨records, hends⟩ := ih hrest
    exact ⟨records, hends⟩

lemma deleteChild_ends {w : WorkItem} (h : (deleteChild key w).Ends site a after) :
    after.store = (site.store.deleteWorkItem w.metadata.key).2 ∧ after.clock = site.clock := by
  have hcall := h.of_deleteItem
  split at hcall
  · obtain ⟨-, rfl⟩ := hcall.of_note.of_done
    exact ⟨rfl, rfl⟩
  · obtain ⟨-, rfl⟩ := hcall.of_done
    exact ⟨rfl, rfl⟩
  · obtain ⟨-, rfl⟩ := hcall.of_note.of_done
    exact ⟨rfl, rfl⟩

/-- Deleting children erases their keys. -/
theorem deleteAll_ends (hcalm : site.Calm now) (h : (deleteAll key ws).Ends site a after) :
    after.Calm now ∧ after.store.objects.schedules = site.store.objects.schedules ∧
      ∀ (k : Key) (v : WorkItem), after.store.objects.workItems[k]? = some v ↔
        site.store.objects.workItems[k]? = some v ∧ ∀ w ∈ ws, w.metadata.key ≠ k := by
  induction ws generalizing site with
  | nil =>
    obtain ⟨-, rfl⟩ := h.of_done
    exact ⟨hcalm, rfl, fun k v => by simp⟩
  | cons w ws ih =>
    obtain ⟨u, mid, hfirst, hrest⟩ := h.of_andThen
    obtain ⟨hstore, hclock⟩ := deleteChild_ends hfirst
    have hfree : site.store.faults.deletes = none := by rw [hcalm.faults]
    obtain ⟨herased, hfaults⟩ := Store.deleteWorkItem_calm hfree hcalm.keyed w.metadata.key
    rw [← hstore] at herased hfaults
    have hmid : mid.Calm now := by
      constructor
      · rw [herased]
        exact hcalm.keyed.erase _ _
      · rw [hfaults, hcalm.faults]
      · rw [hclock, hcalm.clock]
    obtain ⟨hafter, hschedules, hitems⟩ := ih hmid hrest
    refine ⟨hafter, ?_, fun k v => ?_⟩
    · rw [hschedules, herased]
      rfl
    · have hone : mid.store.objects.workItems[k]? =
          if w.metadata.key = k then none else site.store.objects.workItems[k]? := by
        rw [herased]
        exact KeyMap.getElem?_erase _ _ _
      rw [hitems, hone, List.forall_mem_cons]
      by_cases hw : w.metadata.key = k
      · simp [hw]
      · simp [hw]

/-! ## Launching -/

section
variable {y y' : Schedule} {fire : Instant} {wait : Action} {o : Outcome} {w : WorkItem}
  {items : KeyMap WorkItem} {next : Except StoreError WorkItem → Client Outcome}

lemma calm_refuse (h : site.Calm now) (stamp : Stamp) (w : WorkItem) :
    Site.Calm now { site with store := site.store.refuse (.createWorkItem stamp w) } := by
  constructor
  · exact h.keyed
  · change { site.store.faults with nextCreate := none } = _
    rw [h.faults]
  · exact h.clock

/-- A creation that is refused is refused whoever asks again. -/
lemma createItem_refused {e : StoreError} (hrefusal : w.refusal items = some e) {o : Outcome}
    (hnext : ∀ items, (next (.error e)).Rests items now o) : (Client.createItem w next).Rests items now o := by
  intro site b after hcalm hitems h
  have hfree : site.store.faults.nextCreate = none := by rw [hcalm.faults]
  obtain ⟨stamp, hends⟩ := h.of_createItem
  have heq := Store.createWorkItem_eq hfree stamp w
  rw [hitems, hrefusal] at heq
  rw [heq] at hends
  obtain ⟨hb, hsame, hafter⟩ := hnext _ _ b after (calm_refuse hcalm stamp w) rfl hends
  exact ⟨hb, ⟨hsame.objects, hsame.version, hsame.history⟩, hafter⟩

/-- A creation that is not refused stores the work item under a free key. -/
lemma createItem_made (hcalm : site.Calm now) (hrefusal : w.refusal site.store.objects.workItems = none)
    (hnext : ∀ v, ∃ b, ∀ items, (next (.ok v)).Rests items now b)
    (h : (Client.createItem w next).Ends site o after) :
    after.Calm now ∧ site.store.objects.workItems[w.metadata.key]? = none ∧ ∃ stamp,
      after.store.objects = site.store.objects.put (.workItem (site.store.newWorkItem stamp w)) := by
  have hfree : site.store.faults.nextCreate = none := by rw [hcalm.faults]
  obtain ⟨stamp, hends⟩ := h.of_createItem
  have heq := Store.createWorkItem_eq hfree stamp w
  rw [hrefusal] at heq
  have hunused : site.store.objects.workItems[w.metadata.key]? = none := by
    obtain ⟨e, t, he, -⟩ | ⟨hunused, -⟩ := Store.createWorkItem_cases site.store stamp w
    · simp [he] at heq
    · exact hunused
  obtain ⟨b, hrests⟩ := hnext (site.store.newWorkItem stamp w)
  rw [heq] at hends
  let made := (site.store.refuse (.createWorkItem stamp w)).commit .added
    (.workItem (site.store.newWorkItem stamp w))
  have hmade : Site.Calm now { site with store := made } := by
    constructor
    · exact hcalm.keyed.put _
    · exact (calm_refuse hcalm stamp w).faults
    · exact hcalm.clock
  obtain ⟨-, hsame, hafter⟩ := hrests _ _ o after hmade rfl hends
  exact ⟨hafter, hunused, stamp, hsame.objects⟩

/-- A launch changes nothing, now or again, or stores the child of its fire. -/
theorem launch_ends (hcalm : site.Calm now) (h : (launch key y fire wait).Ends site o after) :
    after.Calm now ∧
      (Store.SameData after.store site.store ∧
          (launch key y fire wait).Rests site.store.objects.workItems now o ∨
        ∃ w stamp, WorkItem.ofTemplate y fire = .ok w ∧
          site.store.objects.workItems[w.metadata.key]? = none ∧
          after.store.objects = site.store.objects.put (.workItem (site.store.newWorkItem stamp w))) := by
  have hrested : ∀ b, (launch key y fire wait).Rests site.store.objects.workItems now b →
      after.Calm now ∧ Store.SameData after.store site.store ∧
        (launch key y fire wait).Rests site.store.objects.workItems now o := by
    intro b hrests
    obtain ⟨rfl, hsame, hafter⟩ := hrests site o after hcalm rfl h
    exact ⟨hafter, hsame, hrests⟩
  cases htemplate : WorkItem.ofTemplate y fire with
  | error e =>
    have hquiet : (launch key y fire wait).Rests site.store.objects.workItems now (.finished .done) := by
      unfold launch
      rw [htemplate]
      exact (Client.rests_done _ _ _).note
    obtain ⟨hafter, hsame, hrests⟩ := hrested _ hquiet
    exact ⟨hafter, Or.inl ⟨hsame, hrests⟩⟩
  | ok w =>
    cases hrefusal : w.refusal site.store.objects.workItems with
    | some e =>
      have hquiet : ∃ b, (launch key y fire wait).Rests site.store.objects.workItems now b := by
        unfold launch
        rw [htemplate]
        cases e with
        | alreadyExists kind taken =>
          exact ⟨_, createItem_refused hrefusal fun _ => Client.rests_done _ _ _⟩
        | _ => exact ⟨_, createItem_refused hrefusal fun _ => (Client.rests_done _ _ _).note⟩
      obtain ⟨b, hquiet⟩ := hquiet
      obtain ⟨hafter, hsame, hrests⟩ := hrested b hquiet
      exact ⟨hafter, Or.inl ⟨hsame, hrests⟩⟩
    | none =>
      unfold launch at h
      rw [htemplate] at h
      obtain ⟨hafter, hunused, stamp, hobjects⟩ := createItem_made hcalm hrefusal
        (fun v => ⟨_, fun _ => (Client.rests_done _ _ _).note⟩) h
      exact ⟨hafter, Or.inr ⟨w, stamp, rfl, hunused, hobjects⟩⟩

lemma launch_congr (h : WorkItem.ofTemplate y' fire = WorkItem.ofTemplate y fire) :
    launch key y' fire wait = launch key y fire wait := by
  unfold launch
  rw [h]

end

/-! ## Deciding -/

section
variable {cap : Nat} {y y' : Schedule} {active active' : List WorkItem} {fire : Instant} {wait : Action}

/-- The fire that a pass tries to launch a work item for, if any, and what it asks for then. -/
def attempt? (cap : Nat) (y : Schedule) (active : List WorkItem) (now : Instant) :
    Option (Instant × Action) :=
  if y.spec.suspend then none
  else
    match judge cap y now with
    | .decided ⟨some fire, next⟩ deadline =>
      if isLate fire deadline now ∨ (y.spec.concurrency = .forbid ∧ active ≠ []) then none
      else some (fire, .requeueAfter (Cron.Decision.waitFrom ⟨some fire, next⟩ now))
    | _ => none

/-- The children that are deleted before a launch. -/
def replaced (y : Schedule) (active : List WorkItem) : List WorkItem :=
  if y.spec.concurrency = .replace then active else []

/-- Without a launch to try, a pass makes a notice at most. -/
lemma schedule_of_idle (key : Key) (h : attempt? cap y active now = none) :
    ∃ o, schedule cap key y active = .done o ∨ ∃ next, schedule cap key y active = .readClock next ∧
      (next now = .done o ∨ ∃ r, next now = .note r (.done o)) := by
  unfold attempt? at h
  unfold schedule
  by_cases hsuspend : y.spec.suspend
  · rw [if_pos hsuspend]
    exact ⟨_, Or.inl rfl⟩
  · rw [if_neg hsuspend] at h ⊢
    cases hjudge : judge cap y now with
    | aborted =>
      refine ⟨.aborted, Or.inr ⟨_, rfl, Or.inl ?_⟩⟩
      rw [hjudge]
    | refused n =>
      refine ⟨.finished .done, Or.inr ⟨_, rfl, Or.inr ⟨⟨key, n⟩, ?_⟩⟩⟩
      rw [hjudge]
    | decided d deadline =>
      obtain ⟨missed, next⟩ := d
      let wait := Action.requeueAfter (Cron.Decision.waitFrom ⟨missed, next⟩ now)
      cases missed with
      | none =>
        refine ⟨.finished wait, Or.inr ⟨_, rfl, Or.inl ?_⟩⟩
        rw [hjudge]
      | some fire =>
        rw [hjudge] at h
        dsimp only at h
        split_ifs at h with hstay
        refine ⟨.finished wait, Or.inr ⟨_, rfl, Or.inr ?_⟩⟩
        rw [hjudge]
        dsimp only
        unfold serve
        by_cases hlate : isLate fire deadline now
        · rw [if_pos hlate]
          exact ⟨_, rfl⟩
        · rw [if_neg hlate]
          obtain ⟨hforbid, hactive⟩ := hstay.resolve_left hlate
          obtain ⟨w, ws, rfl⟩ := List.exists_cons_of_ne_nil hactive
          rw [hforbid]
          exact ⟨_, rfl⟩

/-- Without a launch to try, a pass has nothing to do. -/
lemma schedule_rests (key : Key) (h : attempt? cap y active now = none) :
    ∃ o, ∀ items, (schedule cap key y active).Rests items now o := by
  obtain ⟨o, hdone | ⟨next, hread, hnext⟩⟩ := schedule_of_idle key h
  · exact ⟨o, fun _ => hdone ▸ Client.rests_done _ _ _⟩
  · refine ⟨o, fun _ => hread ▸ Client.Rests.readClock ?_⟩
    obtain hnext | ⟨r, hnext⟩ := hnext
    · exact hnext ▸ Client.rests_done _ _ _
    · exact hnext ▸ (Client.rests_done _ _ _).note

/-- With a launch to try, a pass deletes what is replaced and launches. -/
lemma schedule_of_attempt (key : Key) (h : attempt? cap y active now = some (fire, wait)) :
    ∃ next, schedule cap key y active = .readClock next ∧
      next now = (deleteAll key (replaced y active)).andThen fun _ => launch key y fire wait := by
  unfold attempt? at h
  split_ifs at h with hsuspend
  split at h
  · rename_i fire' next deadline hjudge
    split_ifs at h with hstay
    obtain ⟨rfl, rfl⟩ := Prod.mk.inj (Option.some.inj h)
    push Not at hstay
    obtain ⟨hlate, hfree⟩ := hstay
    unfold schedule
    rw [if_neg hsuspend]
    refine ⟨_, rfl, ?_⟩
    dsimp only
    rw [hjudge]
    dsimp only
    unfold serve replaced
    rw [if_neg (by simpa using hlate)]
    cases hpolicy : y.spec.concurrency with
    | allow => rfl
    | forbid =>
      rw [hfree hpolicy]
      rfl
    | replace => rfl
  · simp at h

lemma judge_congr (hspec : y'.spec = y.spec)
    (hlast : y'.status.lastScheduled.getD y'.metadata.created =
      y.status.lastScheduled.getD y.metadata.created) : judge cap y' now = judge cap y now := by
  unfold judge Schedule.startingDeadline
  rw [hspec, hlast]

/-- Whether a launch is tried depends on the last launch and, if it may be forbidden, on active children. -/
lemma attempt?_congr (hspec : y'.spec = y.spec)
    (hlast : y'.status.lastScheduled.getD y'.metadata.created =
      y.status.lastScheduled.getD y.metadata.created)
    (hactive : y.spec.concurrency = .forbid → (active' = [] ↔ active = [])) :
    attempt? cap y' active' now = attempt? cap y active now := by
  have hblocked : (y.spec.concurrency = .forbid ∧ active' ≠ []) ↔
      (y.spec.concurrency = .forbid ∧ active ≠ []) :=
    and_congr_right fun hforbid => not_congr (hactive hforbid)
  unfold attempt?
  rw [judge_congr hspec hlast, hspec]
  simp only [hblocked]

lemma judge_eq_decided_iff {d : Cron.Decision} {deadline : Option Int} :
    judge cap y now = .decided d deadline ↔
      ∃ e, Cron.Expr.parse y.spec.schedule = .ok e ∧ y.startingDeadline = .ok deadline ∧
        e.decision cap (y.status.lastScheduled.getD y.metadata.created) deadline now = .ok d := by
  unfold judge
  constructor
  · intro h
    split at h
    · simp at h
    · simp at h
    · rename_i e hparse
      split at h
      · simp at h
      · rename_i deadline' hdeadline
        split at h
        · simp at h
        · simp at h
        · rename_i d' hdecision
          obtain ⟨rfl, rfl⟩ := Verdict.decided.inj h
          exact ⟨e, hparse, hdeadline, hdecision⟩
  · rintro ⟨e, hparse, hdeadline, hdecision⟩
    simp only [hparse, hdeadline, hdecision]

lemma judge_of_attempt (h : attempt? cap y active now = some (fire, wait)) :
    ∃ next deadline, judge cap y now = .decided ⟨some fire, next⟩ deadline := by
  unfold attempt? at h
  split_ifs at h
  split at h
  · rename_i fire' next deadline hjudge
    split_ifs at h
    rw [← (Prod.mk.inj (Option.some.inj h)).1]
    exact ⟨next, deadline, hjudge⟩
  · simp at h

/-- A fire whose launch is tried is a whole second between the last launch and now. -/
lemma attempt?_later (h : attempt? cap y active now = some (fire, wait)) :
    y.status.lastScheduled.getD y.metadata.created < fire ∧ fire.nano = 0 ∧ fire ≤ now := by
  obtain ⟨next, deadline, hjudge⟩ := judge_of_attempt h
  obtain ⟨hlater, hwhole⟩ := judge_missed_later hjudge rfl
  obtain ⟨e, hparse, -, hdecision⟩ := judge_eq_decided_iff.1 hjudge
  have hle := (Cron.Expr.decision_of_launched (Cron.Expr.steps_of_parse hparse) hdecision rfl).1
  exact ⟨hlater, hwhole, hle⟩

/-- No launch is tried once the fire is launched. -/
lemma attempt?_launched (h : attempt? cap y active now = some (fire, wait)) (hspec : y'.spec = y.spec)
    (hlast : y'.status.lastScheduled = some fire) : attempt? cap y' active' now = none := by
  obtain ⟨next, deadline, hjudge⟩ := judge_of_attempt h
  obtain ⟨e, hparse, hdeadline, hdecision⟩ := judge_eq_decided_iff.1 hjudge
  have hserved := (Cron.Expr.decision_of_launched (Cron.Expr.steps_of_parse hparse) hdecision rfl).2
  have hagain : judge cap y' now = .decided ⟨none, next⟩ deadline := by
    rw [judge_eq_decided_iff, hlast, hspec]
    refine ⟨e, hparse, ?_, hserved⟩
    rw [← hdeadline]
    unfold Schedule.startingDeadline
    rw [hspec]
  unfold attempt?
  rw [hagain]
  split_ifs
  · rfl
  · rfl

end

end Pass

end Timetable
