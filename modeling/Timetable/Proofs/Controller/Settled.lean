import Timetable.Proofs.Controller.Pruning
import Timetable.Proofs.Store.Lineage

/-!
# Passes settle

Undisturbed passes of one key, each from a replica that is up to date, come to rest: after the first one the
history is pruned and the missed fire is launched or cannot be, the second one at most writes the status, and
from then on a pass changes nothing.
-/

namespace Timetable

namespace Pass
variable {site mid after : Site} {now : Instant} {cap : Nat} {key : Key} {view view' : View} {o a : Outcome}

/-- The first part of a pass writes the status, or finds it written. -/
lemma writeStatus_ends {r : Except StoreError Schedule} (hcalm : site.Calm now)
    (hshows : view.Shows site.store.objects key) (h : (writeStatus key view).Ends site r mid) :
    mid.Calm now ∧ ∃ v, r = .ok (view.written v) ∧
      mid.store.objects = site.store.objects.put (.schedule (view.written v)) ∧
      (view.settled = view.schedule → Store.SameData mid.store site.store) := by
  have hkey := hcalm.keyed.schedule_key hshows.schedule
  have hstored : site.store.objects.schedules[view.schedule.metadata.key]? = some view.schedule := by
    rw [hkey]
    exact hshows.schedule
  unfold writeStatus at h
  obtain ⟨records, hends⟩ := noteAll_ends h
  dsimp only at hends
  by_cases hsame : view.schedule.desiredStatus view.children = view.schedule.status
  · rw [if_pos hsame] at hends
    obtain ⟨rfl, rfl⟩ := hends.of_done
    refine ⟨⟨hcalm.keyed, hcalm.faults, hcalm.clock⟩, view.schedule.metadata.version, ?_, ?_, ?_⟩
    · rw [View.written_of_same hsame]
    · rw [View.written_of_same hsame, Listing.put_of_mem (Listing.mem_schedule.2 hstored)]
    · exact fun _ => Store.SameData.refl _
  · rw [if_neg hsame] at hends
    have hcall := hends.of_writeScheduleStatus
    have hfree : site.store.faults.nextStatusUpdate = none := by rw [hcalm.faults]
    have hwrite : site.store.updateScheduleStatus
        { view.schedule with status := view.schedule.desiredStatus view.children } = _ :=
      Store.updateScheduleStatus_calm hfree hstored rfl
    dsimp only at hcall
    rw [hwrite] at hcall
    obtain ⟨rfl, rfl⟩ := hcall.of_done
    refine ⟨⟨hcalm.keyed.put _, ?_, hcalm.clock⟩, site.store.version + 1, rfl, rfl, ?_⟩
    · change { site.store.faults with nextStatusUpdate := none } = _
      rw [hcalm.faults]
    · intro hsettled
      exact absurd (congrArg Schedule.status hsettled) hsame

/-- After the status is written, a pass goes on as the status asks. -/
lemma run_ends (hcalm : site.Calm now) (hshows : view.Shows site.store.objects key)
    (h : (run cap key (some view)).Ends site o after) :
    ∃ v mid, mid.Calm now ∧ mid.store.objects = site.store.objects.put (.schedule (view.written v)) ∧
      (view.settled = view.schedule → Store.SameData mid.store site.store) ∧
      (settle cap key view view.settled).Ends mid o after := by
  obtain ⟨r, mid, hfirst, hrest⟩ := Client.Ends.of_andThen h
  obtain ⟨hmid, v, rfl, hobjects, hsame⟩ := writeStatus_ends hcalm hshows hfirst
  exact ⟨v, mid, hmid, hobjects, hsame, hrest⟩

lemma workItems_put_schedule (l : Listing) (x : Schedule) : (l.put (.schedule x)).workItems = l.workItems := rfl

/-- Once the status is written, the excess is deleted. -/
lemma run_prunes (hcalm : site.Calm now) (hshows : view.Shows site.store.objects key)
    (h : (run cap key (some view)).Ends site o after) :
    ∃ v pruned, pruned.Calm now ∧
      pruned.store.objects.schedules = (site.store.objects.put (.schedule (view.written v))).schedules ∧
      (∀ (k : Key) (w : WorkItem), pruned.store.objects.workItems[k]? = some w ↔
        site.store.objects.workItems[k]? = some w ∧
          ∀ e ∈ excess view.schedule.spec view.children, e.metadata.key ≠ k) ∧
      (schedule cap key view.settled (Buckets.ofItems view.children).active).Ends pruned o after := by
  obtain ⟨v, mid, hmid, hobjects, -, hends⟩ := run_ends hcalm hshows h
  obtain ⟨u, pruned, hprune, hdecide⟩ := Client.Ends.of_andThen hends
  obtain ⟨hpruned, hschedules, hitems⟩ := deleteAll_ends hmid hprune
  rw [hobjects] at hschedules hitems
  exact ⟨v, pruned, hpruned, hschedules, hitems, hdecide⟩

/-- Where there is a launch to try, the children that it replaces are deleted before it. -/
lemma schedule_launches {y : Schedule} {active : List WorkItem} {fire : Instant} {wait : Action}
    (hcalm : site.Calm now) (hattempt : attempt? cap y active now = some (fire, wait))
    (h : (schedule cap key y active).Ends site o after) :
    ∃ cleared, cleared.Calm now ∧ cleared.store.objects.schedules = site.store.objects.schedules ∧
      (∀ (k : Key) (w : WorkItem), cleared.store.objects.workItems[k]? = some w ↔
        site.store.objects.workItems[k]? = some w ∧ ∀ e ∈ replaced y active, e.metadata.key ≠ k) ∧
      (launch key y fire wait).Ends cleared o after := by
  obtain ⟨next, hprogram, hnext⟩ := schedule_of_attempt key hattempt
  rw [hprogram] at h
  have hserve := h.of_readClock
  rw [hcalm.clock, hnext] at hserve
  obtain ⟨u, cleared, hclear, hlaunch⟩ := Client.Ends.of_andThen hserve
  obtain ⟨hcleared, hschedules, hitems⟩ := deleteAll_ends hcalm hclear
  exact ⟨cleared, hcleared, hschedules, hitems, hlaunch⟩

/-- A pass that has nothing to do but to write the status. -/
theorem run_of_rests (hcalm : site.Calm now) (hshows : view.Shows site.store.objects key)
    (hrests : (settle cap key view view.settled).Rests site.store.objects.workItems now a)
    (h : (run cap key (some view)).Ends site o after) :
    o = a ∧ after.Calm now ∧
      (∃ v, after.store.objects = site.store.objects.put (.schedule (view.written v))) ∧
      (view.settled = view.schedule → Store.SameData after.store site.store) := by
  obtain ⟨v, mid, hmid, hobjects, hsame, hends⟩ := run_ends hcalm hshows h
  have hitems : mid.store.objects.workItems = site.store.objects.workItems := by
    rw [hobjects, workItems_put_schedule]
  obtain ⟨rfl, hdata, hafter⟩ := hrests mid o after hmid hitems hends
  refine ⟨rfl, hafter, ⟨v, hdata.objects.trans hobjects⟩, ?_⟩
  exact fun hsettled => hdata.trans (hsame hsettled)

/-! ## The first pass -/

section
variable {v : Nat} {l l' : Listing} {fire : Instant} {wait : Action}

/-- A pass is at rest after one that had no launch to try. -/
lemma rests_of_idle (hshows : view.Shows l key) (hshows' : view'.Shows l' key)
    (hschedule : view'.schedule = view.written v)
    (hidle : attempt? cap view.settled (Buckets.ofItems view.children).active now = none)
    (hstored : ∀ (k : Key) (w : WorkItem), l'.workItems[k]? = some w ↔
      l.workItems[k]? = some w ∧ ∀ e ∈ excess view.schedule.spec view.children, e.metadata.key ≠ k) :
    ∃ a, (settle cap key view' view'.settled).Rests l'.workItems now a := by
  have hleft := children_left hshows hshows' hschedule fun k w h => (hstored k w).1 h
  have hlast := lastScheduled_eq hschedule fun w hw => (hleft w hw).1
  have hagain : attempt? cap view'.settled (Buckets.ofItems view'.children).active now = none := by
    rw [attempt?_congr (spec_settled hschedule) (by rw [hlast, metadata_settled hschedule])
      fun _ => active_eq_nil_iff hshows hshows' hschedule hstored]
    exact hidle
  obtain ⟨a, hrests⟩ := schedule_rests key hagain
  refine ⟨a, ?_⟩
  rw [settle_eq hschedule hshows'.nodup fun w hw _ => hleft w hw]
  exact hrests _

/-- A pass is at rest after one whose launch was refused. -/
lemma rests_of_refused (hshows : view.Shows l key) (hshows' : view'.Shows l' key)
    (hschedule : view'.schedule = view.written v)
    (hattempt : attempt? cap view.settled (Buckets.ofItems view.children).active now = some (fire, wait))
    (hstored : ∀ (k : Key) (w : WorkItem), l'.workItems[k]? = some w ↔
      (l.workItems[k]? = some w ∧ ∀ e ∈ excess view.schedule.spec view.children, e.metadata.key ≠ k) ∧
        ∀ e ∈ replaced view.settled (Buckets.ofItems view.children).active, e.metadata.key ≠ k)
    (hrefused : (launch key view.settled fire wait).Rests l'.workItems now a) :
    (settle cap key view' view'.settled).Rests l'.workItems now a := by
  have hleft := children_left hshows hshows' hschedule fun k w h => ((hstored k w).1 h).1
  have hcleared := children_left hshows hshows' hschedule fun k w h =>
    ⟨((hstored k w).1 h).1.1, ((hstored k w).1 h).2⟩
  have hlast := lastScheduled_eq hschedule fun w hw => (hleft w hw).1
  have hpolicy : view'.settled.spec.concurrency = view.settled.spec.concurrency := by
    rw [spec_settled hschedule]
  have hforbid : view.settled.spec.concurrency = .forbid →
      ((Buckets.ofItems view'.children).active = [] ↔ (Buckets.ofItems view.children).active = []) := by
    intro hforbid
    apply active_eq_nil_iff hshows hshows' hschedule
    intro k w
    rw [hstored]
    unfold replaced
    rw [hforbid]
    simp
  have hagain : attempt? cap view'.settled (Buckets.ofItems view'.children).active now =
      some (fire, wait) := by
    rw [attempt?_congr (spec_settled hschedule) (by rw [hlast, metadata_settled hschedule]) hforbid]
    exact hattempt
  have hnone : replaced view'.settled (Buckets.ofItems view'.children).active = [] := by
    unfold replaced
    split_ifs with hreplace
    · rw [hpolicy] at hreplace
      unfold replaced at hcleared
      rw [if_pos hreplace] at hcleared
      apply List.filter_eq_nil_iff.2
      intro w hw hactive
      obtain ⟨hchild, hkept⟩ := hcleared w hw
      exact hkept (List.mem_filter.2 ⟨hchild, hactive⟩)
    · rfl
  obtain ⟨next, hprogram, hnext⟩ := schedule_of_attempt key hagain
  have htemplate : WorkItem.ofTemplate view'.settled fire = WorkItem.ofTemplate view.settled fire := by
    unfold View.settled
    rw [hschedule]
    rfl
  rw [settle_eq hschedule hshows'.nodup fun w hw _ => hleft w hw, hprogram]
  apply Client.Rests.readClock
  rw [hnext, hnone]
  change (launch key view'.settled fire wait).Rests l'.workItems now a
  rw [launch_congr htemplate]
  exact hrefused

/-- A pass is at rest after one that launched a work item. -/
lemma rests_of_launched {made : WorkItem} (hshows : view.Shows l key) (hshows' : view'.Shows l' key)
    (hschedule : view'.schedule = view.written v)
    (hattempt : attempt? cap view.settled (Buckets.ofItems view.children).active now = some (fire, wait))
    (hstored : ∀ (k : Key) (w : WorkItem), l'.workItems[k]? = some w → w = made ∨
      l.workItems[k]? = some w ∧ ∀ e ∈ excess view.schedule.spec view.children, e.metadata.key ≠ k)
    (hmade : made ∈ view'.children) (hfire : made.scheduledTime = .ok fire)
    (hphase : made.status.phase.isTerminal = false) :
    ∃ a, (settle cap key view' view'.settled).Rests l'.workItems now a := by
  have hleft : ∀ w ∈ view'.children, w = made ∨
      w ∈ view.children ∧ w ∉ excess view.schedule.spec view.children := by
    intro w hw
    have hnow := ((hshows'.children w).1 hw).1
    obtain hnew | ⟨hbefore, hkept⟩ := hstored _ w hnow
    · exact Or.inl hnew
    · right
      exact ⟨(mem_children_iff hshows hshows' hschedule hbefore hnow).1 hw, fun h => hkept w h rfl⟩
  have hlast := lastScheduled_launched hschedule hmade hfire (attempt?_later hattempt).1
    fun w hw => (hleft w hw).imp_right And.left
  have hagain : attempt? cap view'.settled (Buckets.ofItems view'.children).active now = none :=
    attempt?_launched hattempt (spec_settled hschedule) hlast
  obtain ⟨a, hrests⟩ := schedule_rests key hagain
  refine ⟨a, ?_⟩
  rw [settle_eq hschedule hshows'.nodup]
  · exact hrests _
  · intro w hw hterminal
    obtain rfl | hold := hleft w hw
    · simp [hphase] at hterminal
    · exact hold

/-- A pass is at rest once the child of its fire was put beside the children that were left. -/
lemma rests_of_put {s : Store} {stamp : Stamp} {w : WorkItem} (hshows : view.Shows l key)
    (hkey : view.schedule.metadata.key = key) (hcreated : view.schedule.metadata.created.InFourDigitYear)
    (hnow : now.InFourDigitYear)
    (hattempt : attempt? cap view.settled (Buckets.ofItems view.children).active now = some (fire, wait))
    (htemplate : WorkItem.ofTemplate view.settled fire = .ok w)
    (hleft : ∀ (k : Key) (v : WorkItem), s.objects.workItems[k]? = some v → l.workItems[k]? = some v ∧
      ∀ e ∈ excess view.schedule.spec view.children, e.metadata.key ≠ k)
    (hput : l' = s.objects.put (.workItem (s.newWorkItem stamp w))) (hshows' : view'.Shows l' key)
    (hschedule : view'.schedule = view.written v) :
    ∃ a, (settle cap key view' view'.settled).Rests l'.workItems now a := by
  obtain ⟨hlater, hwhole, hle⟩ := attempt?_later hattempt
  let made := s.newWorkItem stamp w
  have hitems : ∀ k : Key, l'.workItems[k]? =
      if made.metadata.key = k then some made else s.objects.workItems[k]? := by
    intro k
    rw [hput]
    exact KeyMap.getElem?_insert _ _ _ _
  have hlaunch : made.LaunchOf key view.schedule.metadata.uid fire := by
    have hcopy := (WorkItem.launchOf_of_template htemplate hwhole).copies (w := made) ⟨rfl, rfl, rfl⟩
    rw [← hkey]
    exact hcopy
  have hstored : ∀ (k : Key) (v : WorkItem), l'.workItems[k]? = some v → v = made ∨
      l.workItems[k]? = some v ∧ ∀ e ∈ excess view.schedule.spec view.children, e.metadata.key ≠ k := by
    intro k v hv
    rw [hitems] at hv
    split_ifs at hv
    · exact Or.inl (Option.some.inj hv).symm
    · exact Or.inr (hleft k v hv)
  have hmade : made ∈ view'.children := by
    apply (hshows'.children made).2
    refine ⟨by rw [hitems, if_pos rfl], hlaunch.ownerKey, ?_⟩
    rw [hlaunch.isControlledBy, hschedule]
    exact ⟨rfl, congrArg Key.space hkey.symm⟩
  have hlast : view.schedule.metadata.created ≤ fire := by
    obtain ⟨last, hlast, hle, -⟩ := view.schedule.desiredStatus_lastScheduled view.children
    change (view.schedule.desiredStatus view.children).lastScheduled.getD _ < fire at hlater
    rw [hlast] at hlater
    exact hle.trans hlater.le
  have hfire := hlaunch.scheduledTime (hcreated.between hnow hlast hle)
  have hphase : made.status.phase.isTerminal = false := by
    change w.status.phase.isTerminal = false
    rw [WorkItem.status_of_template htemplate]
    rfl
  exact rests_of_launched hshows hshows' hschedule hattempt hstored hmade hfire hphase

end

/-- After a pass, the next one has nothing to do but to write the status. -/
theorem rests_after (hcalm : site.Calm now) (hshows : view.Shows site.store.objects key)
    (hcreated : view.schedule.metadata.created.InFourDigitYear) (hnow : now.InFourDigitYear)
    (h : (run cap key (some view)).Ends site o after) :
    after.Calm now ∧ ∀ view', view'.Shows after.store.objects key →
      ∃ a, (settle cap key view' view'.settled).Rests after.store.objects.workItems now a := by
  obtain ⟨v, pruned, hpruned, hschedules, hitems, hdecide⟩ := run_prunes hcalm hshows h
  have hkey := hcalm.keyed.schedule_key hshows.schedule
  -- the schedule under the key stays as it was written
  have hwritten : ∀ {l : Listing} {view' : View}, l.schedules = pruned.store.objects.schedules →
      view'.Shows l key → view'.schedule = view.written v := by
    intro l view' hl hshows'
    have hfound := hshows'.schedule
    rw [hl, hschedules, stored_written hcalm.keyed hshows v] at hfound
    exact (Option.some.inj hfound).symm
  cases hattempt : attempt? cap view.settled (Buckets.ofItems view.children).active now with
  | none =>
    obtain ⟨a, hrests⟩ := schedule_rests key hattempt
    obtain ⟨-, hdata, hafter⟩ := hrests _ pruned o after hpruned rfl hdecide
    refine ⟨hafter, fun view' hshows' => ?_⟩
    rw [hdata.objects] at hshows' ⊢
    exact rests_of_idle hshows hshows' (hwritten rfl hshows') hattempt hitems
  | some attempt =>
    obtain ⟨fire, wait⟩ := attempt
    obtain ⟨cleared, hcleared, hschedules', hitems', hlaunch⟩ := schedule_launches hpruned hattempt hdecide
    have hstored : ∀ (k : Key) (w : WorkItem), cleared.store.objects.workItems[k]? = some w ↔
        (site.store.objects.workItems[k]? = some w ∧
          ∀ e ∈ excess view.schedule.spec view.children, e.metadata.key ≠ k) ∧
        ∀ e ∈ replaced view.settled (Buckets.ofItems view.children).active, e.metadata.key ≠ k := by
      intro k w
      rw [hitems', hitems]
    obtain ⟨hafter, ⟨hdata, hrefused⟩ | ⟨w, stamp, htemplate, hfree, hput⟩⟩ := launch_ends hcleared hlaunch
    · refine ⟨hafter, fun view' hshows' => ⟨o, ?_⟩⟩
      rw [hdata.objects] at hshows' ⊢
      exact rests_of_refused hshows hshows' (hwritten hschedules' hshows') hattempt hstored hrefused
    · refine ⟨hafter, fun view' hshows' => ?_⟩
      have hschedule : view'.schedule = view.written v := by
        apply hwritten _ hshows'
        rw [hput]
        exact hschedules'
      exact rests_of_put hshows hkey hcreated hnow hattempt htemplate (fun k w hw => ((hstored k w).1 hw).1)
        hput hshows' hschedule

/-! ## Three passes -/

/-- A pass is run from a replica that is up to date. -/
def Passes (cap : Nat) (key : Key) (site : Site) (o : Outcome) (after : Site) : Prop :=
  ∃ r : Replica, r.Current site.store ∧ (run cap key (r.view? key)).Ends site o after

lemma passes_of_none (h : Passes cap key site o after) (hnone : site.store.objects.schedules[key]? = none) :
    o = .finished .done ∧ after = site := by
  obtain ⟨r, hcurrent, hends⟩ := h
  rw [hcurrent.view?_eq_none hnone] at hends
  exact hends.of_done

/-- A view of a written status with the same children finds nothing to write. -/
lemma settled_of_written (cap : Nat) (key : Key) {v : Nat} (hschedule : view'.schedule = view.written v)
    (hchildren : view.children = view'.children) :
    view'.settled = view'.schedule ∧
      settle cap key view' view'.settled = settle cap key view view.settled := by
  obtain ⟨schedule, children⟩ := view'
  dsimp only at hschedule hchildren
  subst hschedule hchildren
  have hsettled : (View.mk (view.written v) view.children).settled = view.written v := by
    have hstatus : (view.written v).desiredStatus view.children = view.settled.status :=
      view.schedule.desiredStatus_idem view.children
    unfold View.settled
    dsimp only
    rw [hstatus]
    rfl
  rw [hsettled]
  exact ⟨rfl, rfl⟩

/-- Once a pass has nothing to do but to write the status, the one after it does nothing. -/
lemma passes_again {o' : Outcome} {last : Site} (hcalm : site.Calm now) {r : Replica}
    (hcurrent : r.Current site.store) (hview : r.view? key = some view)
    (hrests : (settle cap key view view.settled).Rests site.store.objects.workItems now a)
    (h : (run cap key (r.view? key)).Ends site o after) (h' : Passes cap key after o' last) :
    last.store.objects = after.store.objects ∧ last.store.version = after.store.version ∧ o' = o := by
  have hshows := hcurrent.shows hcalm.keyed hview
  rw [hview] at h
  obtain ⟨rfl, hafter, ⟨v, hobjects⟩, -⟩ := run_of_rests hcalm hshows hrests h
  obtain ⟨m, hcurrent', hends⟩ := h'
  have hitems : site.store.objects.workItems = after.store.objects.workItems := by
    rw [hobjects, workItems_put_schedule]
  have hstored : after.store.objects.schedules[key]? = some (view.written v) := by
    rw [hobjects]
    exact stored_written hcalm.keyed hshows v
  obtain ⟨view', hview', hschedule⟩ := hcurrent'.exists_view hstored
  have hchildren : view.children = view'.children := by
    apply hcurrent.children_eq hcurrent' hitems hview hview'
    · rw [hschedule]
      rfl
    · rw [hschedule]
      rfl
  obtain ⟨hsettled, hprogram⟩ := settled_of_written cap key hschedule hchildren
  rw [hview'] at hends
  rw [hitems, ← hprogram] at hrests
  obtain ⟨rfl, -, -, hsame⟩ := run_of_rests hafter (hcurrent'.shows hafter.keyed hview') hrests hends
  have hdata := hsame hsettled
  exact ⟨hdata.objects, hdata.version, rfl⟩

/-- Two undisturbed passes of a key settle it: a third one changes nothing and ends like the second. -/
theorem settles {s : Store} {past : List Store} {records : List Record} {o₁ o₂ o₃ : Outcome}
    {site₁ site₂ site₃ : Site} (hserved : Served (s :: past)) (hfaults : s.faults = ⟨none, none, none⟩)
    (hnow : now.InFourDigitYear)
    (hcreated : ∀ x, s.objects.schedules[key]? = some x → x.metadata.created.InFourDigitYear)
    (h₁ : Passes cap key ⟨s, now, records⟩ o₁ site₁) (h₂ : Passes cap key site₁ o₂ site₂)
    (h₃ : Passes cap key site₂ o₃ site₃) :
    site₃.store.objects = site₂.store.objects ∧ site₃.store.version = site₂.store.version ∧ o₃ = o₂ := by
  have hcalm : Site.Calm now ⟨s, now, records⟩ :=
    ⟨hserved.chronicle.keyed List.mem_cons_self, hfaults, rfl⟩
  -- without a schedule there is nothing to do
  have hmissing : site₁.store.objects.schedules[key]? = none →
      site₃.store.objects = site₂.store.objects ∧ site₃.store.version = site₂.store.version ∧ o₃ = o₂ := by
    intro hnone
    obtain ⟨rfl, rfl⟩ := passes_of_none h₂ hnone
    obtain ⟨rfl, rfl⟩ := passes_of_none h₃ hnone
    exact ⟨rfl, rfl, rfl⟩
  cases hfirst : s.objects.schedules[key]? with
  | none =>
    obtain ⟨rfl, rfl⟩ := passes_of_none h₁ hfirst
    exact hmissing hfirst
  | some x =>
    obtain ⟨r₁, hcurrent₁, hends₁⟩ := h₁
    obtain ⟨view₁, hview₁, hschedule₁⟩ := hcurrent₁.exists_view hfirst
    have hyear : view₁.schedule.metadata.created.InFourDigitYear := by
      rw [hschedule₁]
      exact hcreated x hfirst
    rw [hview₁] at hends₁
    obtain ⟨hcalm₁, hrest⟩ := rests_after hcalm (hcurrent₁.shows hcalm.keyed hview₁) hyear hnow hends₁
    cases hsecond : site₁.store.objects.schedules[key]? with
    | none => exact hmissing hsecond
    | some y =>
      obtain ⟨r₂, hcurrent₂, hends₂⟩ := h₂
      obtain ⟨view₂, hview₂, -⟩ := hcurrent₂.exists_view hsecond
      obtain ⟨a, hrests⟩ := hrest view₂ (hcurrent₂.shows hcalm₁.keyed hview₂)
      exact passes_again hcalm₁ hcurrent₂ hview₂ hrests hends₂ h₃

/-! ## A schedule comes to rest -/

def tick : Key := Schedule.minutely.metadata.key

/-- A pass from a replica that has just listed the store, and the site after it. -/
def listAndRun (site : Site) : Outcome × Site :=
  let r := (Replica.empty.replace site.store.objects.toList site.store.version).1
  let ended := (run 100 tick (r.view? tick)).run (fun n => .ofNat (n + 2)) site 0
  (ended.1, ended.2.1)

lemma ends_listAndRun (site : Site) :
    (run 100 tick ((Replica.empty.replace site.store.objects.toList site.store.version).1.view? tick)).Ends site
      (listAndRun site).1 (listAndRun site).2 :=
  ⟨_, 0, _, rfl⟩

lemma passes_listAndRun {past : List Store} (hc : Chronicle (site.store :: past)) :
    Passes 100 tick site (listAndRun site).1 (listAndRun site).2 ∧
      ∃ before, Chronicle ((listAndRun site).2.store :: before) := by
  have hends := ends_listAndRun site
  exact ⟨⟨_, Replica.current_of_listing hc, hends⟩, hends.chronicle hc⟩

/-- A minute and a half after the creation of the schedule. -/
def due : Site :=
  ⟨Store.empty.serve (.createSchedule ⟨.ofNat 1, .ofSecond 0⟩ .minutely), .ofSecond 90, []⟩

def launched : Site := (listAndRun due).2

def recorded : Site := (listAndRun launched).2

/-- The first pass launches a work item, the second one records it, and the third one finds nothing to do. -/
theorem settles_minutely :
    launched.store.version = 3 ∧ recorded.store.version = 4 ∧
      (listAndRun recorded).2.store.objects = recorded.store.objects ∧
      (listAndRun recorded).2.store.version = recorded.store.version ∧
      (listAndRun recorded).1 = (listAndRun launched).1 := by
  have hserved : Served [due.store, .empty] := .serve (.createSchedule _ _) .start
  have hyear : ∀ second ∈ [0, 90], (Instant.ofSecond second).InFourDigitYear := by
    unfold Instant.InFourDigitYear
    decide +kernel
  have hcreated : ∀ x, due.store.objects.schedules[tick]? = some x →
      x.metadata.created.InFourDigitYear := by
    have hstored : due.store.objects.schedules[tick]?.map (·.metadata.created) =
        some (.ofSecond 0) := by decide +kernel
    intro x hx
    rw [hx] at hstored
    have hat : x.metadata.created = .ofSecond 0 := Option.some.inj hstored
    rw [hat]
    exact hyear 0 (by simp)
  obtain ⟨hfirst, past, hlaunched⟩ := passes_listAndRun hserved.chronicle
  obtain ⟨hsecond, past', hrecorded⟩ := passes_listAndRun hlaunched
  obtain ⟨hthird, -⟩ := passes_listAndRun hrecorded
  refine ⟨by decide +kernel, by decide +kernel, ?_⟩
  exact settles hserved rfl (hyear 90 (by simp)) hcreated hfirst hsecond hthird

end Pass

end Timetable
