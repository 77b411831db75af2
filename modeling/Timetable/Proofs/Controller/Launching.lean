import Timetable.Proofs.Controller.AtMostOnce
import Timetable.Proofs.Controller.Settled
import Timetable.Proofs.Controller.WholePass

/-!
# Launches that are reported

A pass that has come to launch for a fire and asks to be run again reports the fire as launched. It does so also where
the name of the child is taken. Where the replica is up to date, what has taken the name is then never the child of the
fire. But where only passes create work items, no name is ever taken like that.
-/

namespace Timetable

namespace Pass

/-- The child of a fire is there: the schedule controls it, and its annotation reads as the fire. -/
def Delivers (s : Schedule) (fire : Instant) (l : Listing) : Prop :=
  ∃ w, l.workItems[WorkItem.childKey s.metadata.key fire]? = some w ∧
    w.metadata.isControlledBy s.metadata = true ∧ w.scheduledTime = .ok fire

/-- From one listing to the next something stands under the key of the child of a fire, and it is not this child. -/
def Taken (s : Schedule) (fire : Instant) (l l' : Listing) : Prop :=
  ∃ w, l.workItems[WorkItem.childKey s.metadata.key fire]? = some w ∧
    l'.workItems[WorkItem.childKey s.metadata.key fire]? = some w ∧
    (w.isChildOf s = true → w.scheduledTime ≠ .ok fire)

variable {site after : Site} {now fire : Instant} {cap : Nat} {key : Key} {y s : Schedule} {wait : Action} {d : Nat}
  {r : Replica}

/-- A launch that asks for another pass stored the child or found its key taken. -/
lemma launch_requeues (hcalm : site.Calm now)
    (h : (launch key y fire wait).Ends site (.finished (.requeueAfter d)) after) :
    ∃ w, WorkItem.ofTemplate y fire = .ok w ∧
      ((∃ stamp, after.store.objects = site.store.objects.put (.workItem (site.store.newWorkItem stamp w))) ∨
        after.store.objects = site.store.objects ∧ ∃ v, site.store.objects.workItems[w.metadata.key]? = some v) := by
  unfold launch at h
  cases htemplate : WorkItem.ofTemplate y fire with
  | error e =>
    rw [htemplate] at h
    obtain ⟨hfinished, -⟩ := h.of_note.of_done
    simp at hfinished
  | ok w =>
    rw [htemplate] at h
    have hfree : site.store.faults.nextCreate = none := by rw [hcalm.faults]
    obtain ⟨stamp, hends⟩ := h.of_createItem
    have heq := Store.createWorkItem_eq hfree stamp w
    refine ⟨w, rfl, ?_⟩
    cases hrefusal : w.refusal site.store.objects.workItems with
    | none =>
      rw [hrefusal] at heq
      rw [heq] at hends
      obtain ⟨-, rfl⟩ := hends.of_note.of_done
      exact Or.inl ⟨stamp, rfl⟩
    | some e =>
      rw [hrefusal] at heq
      rw [heq] at hends
      obtain ⟨reason, rfl⟩ | ⟨kind, taken, rfl, htaken⟩ := WorkItem.refusal_cases hrefusal
      · obtain ⟨hfinished, -⟩ := hends.of_note.of_done
        simp at hfinished
      · obtain ⟨-, rfl⟩ := hends.of_done
        exact Or.inr ⟨rfl, htaken⟩

/-- Once the status is written and children are deleted, a pass that has reached a fire stores the child of the fire, or
finds that something stood under its key all along. -/
lemma run_requeues {view : View} (hcalm : site.Calm now) (hnow : now.Representable)
    (hshows : view.Shows site.store.objects key) (hreaches : Reaches cap now view fire)
    (h : (run cap key (some view)).Ends site (.finished (.requeueAfter d)) after) :
    ∃ w, WorkItem.ofTemplate view.settled fire = .ok w ∧
      ((∃ uid created version, after.store.objects.workItems[w.metadata.key]? =
          some { w with metadata := { w.metadata with uid, created, version } }) ∨
        ∃ v, site.store.objects.workItems[w.metadata.key]? = some v ∧
          after.store.objects.workItems[w.metadata.key]? = some v) := by
  obtain ⟨wait, hattempt⟩ := (reaches_iff hnow).1 hreaches
  obtain ⟨-, pruned, hpruned, -, hleft, hdecide⟩ := run_prunes hcalm hshows h
  obtain ⟨cleared, hcleared, -, hleft', hlaunch⟩ := schedule_launches hpruned hattempt hdecide
  obtain ⟨w, htemplate, ⟨stamp, hput⟩ | ⟨hsame, v, hv⟩⟩ := launch_requeues hcleared hlaunch
  · refine ⟨w, htemplate, Or.inl ⟨stamp.uid, stamp.time, cleared.store.version + 1, ?_⟩⟩
    rw [hput]
    exact (KeyMap.getElem?_insert _ _ _ _).trans (if_pos rfl)
  · exact ⟨w, htemplate, Or.inr ⟨v, ((hleft _ v).1 ((hleft' _ v).1 hv).1).1, by rw [hsame, hv]⟩⟩

/-- Where the replica is up to date, a reported fire has its child, or the key of the child was taken. -/
lemma delivers_or_taken (hcalm : site.Calm now) (hnow : now.Representable) (hcurrent : r.Current site.store)
    (hs : site.store.objects.schedules[key]? = some s) (hyear : fire.InFourDigitYear)
    (hreaches : Reaches cap now ⟨s, site.store.objects.childrenOf s⟩ fire)
    (h : (run cap key (r.view? key)).Ends site (.finished (.requeueAfter d)) after) :
    Delivers s fire after.store.objects ∨ Taken s fire site.store.objects after.store.objects := by
  let view : View := ⟨s, site.store.objects.childrenOf s⟩
  have hview := hcurrent.view?_eq hcalm.keyed hs
  have hshows := hcurrent.shows hcalm.keyed hview
  rw [hview] at h
  obtain ⟨wait, hattempt⟩ := (reaches_iff hnow).1 hreaches
  obtain ⟨hlater, hwhole, -⟩ := attempt?_later hattempt
  obtain ⟨w, htemplate, hmade⟩ := run_requeues hcalm hnow hshows hreaches h
  have hlaunch := WorkItem.launchOf_of_template htemplate hwhole
  have hkey : w.metadata.key = WorkItem.childKey s.metadata.key fire := hlaunch.key
  rw [hkey] at hmade
  obtain ⟨uid, created, version, hmade⟩ | ⟨v, hbefore, hafter⟩ := hmade
  · have hcopy := hlaunch.copies
      (w := { w with metadata := { w.metadata with uid, created, version } }) ⟨rfl, rfl, rfl⟩
    exact Or.inl ⟨_, hmade, (hcopy.isControlledBy _).2 ⟨rfl, rfl⟩, hcopy.scheduledTime hyear⟩
  · refine Or.inr ⟨v, hbefore, hafter, fun hchild hfire => ?_⟩
    -- a child of the fire would have been recorded, and then the fire is not missed
    have hmem : v ∈ view.children := by
      rw [hcalm.keyed.mem_childrenOf, hcalm.keyed.workItem_key hbefore]
      exact ⟨hbefore, hchild⟩
    obtain ⟨last, hlast, -, -, hfires⟩ := s.desiredStatus_lastScheduled view.children
    change (s.desiredStatus view.children).lastScheduled.getD _ < fire at hlater
    rw [hlast] at hlater
    exact absurd hlater (hfires v hmem fire hfire).not_gt

/-- A fire that is reported as launched has its child, or its key was taken by something else. Where only passes create
and delete work items, it has its child. -/
theorem reports_launches (hcalm : site.Calm now) (hnow : now.Representable) (hcurrent : r.Current site.store)
    (hs : site.store.objects.schedules[key]? = some s) (hyear : fire.InFourDigitYear)
    (hreaches : Reaches cap now ⟨s, site.store.objects.childrenOf s⟩ fire)
    (h : (run cap key (r.view? key)).Ends site (.finished (.requeueAfter d)) after) :
    (Delivers s fire after.store.objects ∨ Taken s fire site.store.objects after.store.objects) ∧
      ((∃ c : Deployment, c.Reachable ∧ c.world.site.store.objects = site.store.objects) →
        Delivers s fire after.store.objects) := by
  have heither := delivers_or_taken hcalm hnow hcurrent hs hyear hreaches h
  refine ⟨heither, ?_⟩
  rintro ⟨c, hreachable, hobjects⟩
  refine heither.resolve_right ?_
  rintro ⟨v, hbefore, -, hother⟩
  obtain ⟨wait, hattempt⟩ := (reaches_iff hnow).1 hreaches
  have hsound := Deployment.sound_of_reachable hreachable
  have hc := hsound.world.chronicle
  rw [← hobjects] at hs hbefore
  have hkey := (hc.keyed List.mem_cons_self).workItem_key hbefore
  rw [← hkey] at hbefore
  have hheld : Held c.world.stores s := ⟨_, List.mem_cons_self, Store.mem_of_get? hc List.mem_cons_self hs⟩
  obtain ⟨hlaunch, -⟩ := hsound.ledger.launchOf_of_childKey hheld (attempt?_later hattempt).2.1 List.mem_cons_self
    (Listing.mem_workItem.2 hbefore) hkey
  refine hother ?_ (hlaunch.scheduledTime hyear)
  rw [WorkItem.isChildOf_iff, hlaunch.isControlledBy]
  exact ⟨hlaunch.ownerKey, rfl, rfl⟩

/-! ## The next fire -/

/-- A pass that was given up had launched a work item for a fire. -/
def left : Store := Deployment.abandoned.world.site.store

/-- The next pass is run when another fire is due. -/
def resumed : Outcome × Site := listAndRun ⟨left, .ofSecond 150, []⟩

/-- The pass over the store that was left delivers the next fire. -/
theorem reports_launches_resumed :
    resumed.1 = .finished (.requeueAfter 60000000000) ∧
      ∃ s, left.objects.schedules[tick]? = some s ∧ Delivers s (.ofSecond 120) resumed.2.store.objects := by
  have hreachable := Deployment.abandoned_reachable
  have hc : Chronicle (left :: Deployment.abandoned.world.past) := hreachable.chronicle
  have hkeyed := hc.keyed List.mem_cons_self
  have hfaults : left.faults = ⟨none, none, none⟩ := by decide +kernel
  have hyear : (Instant.ofSecond 120).InFourDigitYear := by
    unfold Instant.InFourDigitYear
    decide +kernel
  have hnow : (Instant.ofSecond 150).Representable := by
    unfold Instant.Representable
    decide +kernel
  have hattempt : left.objects.schedules[tick]?.map (fun s =>
      let view : View := ⟨s, left.objects.childrenOf s⟩
      attempt? 100 view.settled (Buckets.ofItems view.children).active (.ofSecond 150)) =
      some (some (.ofSecond 120, .requeueAfter 60000000000)) := by decide +kernel
  have houtcome : resumed.1 = .finished (.requeueAfter 60000000000) := by decide +kernel
  have hends := ends_listAndRun ⟨left, .ofSecond 150, []⟩
  change (run 100 tick _).Ends _ resumed.1 resumed.2 at hends
  rw [houtcome] at hends
  have hdeployed : ∃ c : Deployment, c.Reachable ∧ c.world.site.store = left := ⟨_, hreachable, rfl⟩
  -- from here on nothing is to be computed from the store
  generalize left = s at *
  generalize resumed = ended at *
  obtain ⟨x, hx, hattempt⟩ := Option.map_eq_some_iff.1 hattempt
  obtain ⟨c, hreachable, hstore⟩ := hdeployed
  have hcalm : Site.Calm (.ofSecond 150) ⟨s, .ofSecond 150, []⟩ := ⟨hkeyed, hfaults, rfl⟩
  have hreports := reports_launches hcalm hnow (Replica.current_of_listing hc) hx hyear
    ((reaches_iff hnow).2 ⟨_, hattempt⟩) hends
  exact ⟨houtcome, x, hx, hreports.2 ⟨c, hreachable, congrArg Store.objects hstore⟩⟩

/-! ## A name that was taken -/

/-- A work item that belongs to no schedule, under the name of the child of a fire. -/
def stranger : WorkItem where
  metadata := Meta.new "jobs" "tick-60" .blank
  spec := .bool true
  status := .initial

def occupied : Store :=
  (Store.empty.serve (.createSchedule ⟨.ofNat 1, .ofSecond 0⟩ .minutely)).serve
    (.createWorkItem ⟨.ofNat 2, .ofSecond 30⟩ stranger)

/-- The fire is missed and reported as launched, but nothing that is stored belongs to the schedule. -/
theorem reports_without_launch :
    Site.Calm (.ofSecond 90) ⟨occupied, .ofSecond 90, []⟩ ∧ (Instant.ofSecond 60).InFourDigitYear ∧
      ∃ (r : Replica) (x : Schedule) (after : Site), r.Current occupied ∧
        occupied.objects.schedules[tick]? = some x ∧
        Reaches 100 (.ofSecond 90) ⟨x, occupied.objects.childrenOf x⟩ (.ofSecond 60) ∧
        (run 100 tick (r.view? tick)).Ends ⟨occupied, .ofSecond 90, []⟩ (.finished (.requeueAfter 60000000000))
          after ∧
        ∀ w ∈ after.store.objects.items, w.metadata.isControlledBy x.metadata = false := by
  have hserved := (Served.start.request (.createSchedule ⟨.ofNat 1, .ofSecond 0⟩ .minutely)).request
    (.createWorkItem ⟨.ofNat 2, .ofSecond 30⟩ stranger)
  have hkeyed : occupied.objects.Keyed := hserved.chronicle.keyed List.mem_cons_self
  have hcurrent : (Replica.empty.replace occupied.objects.toList occupied.version).1.Current occupied :=
    Replica.current_of_listing hserved.chronicle
  have hfaults : occupied.faults = ⟨none, none, none⟩ := by decide +kernel
  have hyear : (Instant.ofSecond 60).InFourDigitYear := by
    unfold Instant.InFourDigitYear
    decide +kernel
  have hnow : (Instant.ofSecond 90).Representable := by
    unfold Instant.Representable
    decide +kernel
  have hx : occupied.objects.schedules[tick]? = some (Store.lived 1 1) := by decide +kernel
  have hattempt :
      let view : View := ⟨Store.lived 1 1, occupied.objects.childrenOf (Store.lived 1 1)⟩
      attempt? 100 view.settled (Buckets.ofItems view.children).active (.ofSecond 90) =
        some (.ofSecond 60, .requeueAfter 60000000000) := by decide +kernel
  have houtcome : (listAndRun ⟨occupied, .ofSecond 90, []⟩).1 = .finished (.requeueAfter 60000000000) := by
    decide +kernel
  have hends := ends_listAndRun ⟨occupied, .ofSecond 90, []⟩
  rw [houtcome] at hends
  have hnone : ∀ w ∈ (listAndRun ⟨occupied, .ofSecond 90, []⟩).2.store.objects.items,
      w.metadata.isControlledBy (Store.lived 1 1).metadata = false := by decide +kernel
  exact ⟨⟨hkeyed, hfaults, rfl⟩, hyear, _, _, _, hcurrent, hx, (reaches_iff hnow).2 ⟨_, hattempt⟩, hends, hnone⟩

end Pass

end Timetable
