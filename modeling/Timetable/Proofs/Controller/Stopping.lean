import Timetable.Proofs.Controller.Interleaving
import Timetable.Proofs.Controller.WholePass

/-!
# Passes that stop at the template

From some templates no work item can be made: there is no spec, or the name of the child is not valid. A pass finds out
late, when the status is written, the history is pruned and the policy is applied. It launches nothing then, and no
child that was seen at work is gone, unless the policy is to replace: these children make way before the template is
read.
-/

namespace Timetable.Pass

/-- What a pass leaves that could make no work item from the template. -/
structure Stops (cap : Nat) (key : Key) (view : View) (cause : ObjectError) (site : Site) (log : List Mishap)
    (after : Site) : Prop where
  notice : after.records.head? = some ⟨key, .badTemplate cause⟩
  /-- Nothing is launched, and all stays but what a pass discards. -/
  workItems : ∀ k v, after.store.objects.workItems[k]? = some v ↔ site.store.objects.workItems[k]? = some v ∧
    ((∃ w, Discards cap site.clock view w ∧ w.metadata.key = k) → ∃ e, Mishap.delete k e ∈ log)
  spares : view.schedule.spec.concurrency ≠ .replace → ∀ c ∈ view.children, c.status.phase.isTerminal = false →
    after.store.objects.workItems[c.metadata.key]? = site.store.objects.workItems[c.metadata.key]?
  clears : view.schedule.spec.concurrency = .replace → ∀ c ∈ view.children, c.status.phase.isTerminal = false →
    after.store.objects.workItems[c.metadata.key]? = none ∨ ∃ e, .delete c.metadata.key e ∈ log

section
variable {cap : Nat} {key : Key} {now fire : Instant} {view : View} {c w : WorkItem} {cause : ObjectError}
  {site mid after : Site} {past : List Store} {log : List Mishap} {o : Outcome}

/-! ## The status from an outdated view -/

/-- Over another schedule than the one seen no status is written. -/
lemma writeStatus_outdated {r : Except StoreError Schedule} (hc : Chronicle (site.store :: past))
    (hview : Held (site.store :: past) view.schedule)
    (hgone : site.store.objects.schedules[view.schedule.metadata.key]? ≠ some view.schedule)
    (h : (writeStatus key view).Endures site log r mid) :
    Store.SameData mid.store site.store ∧ ((∃ e, r = .error e) ∨ log = [] ∧ ∃ version, r = .ok (view.written version)) := by
  unfold writeStatus at h
  obtain ⟨records, hends⟩ := noteAll_endures h
  dsimp only at hends
  by_cases hsame : view.schedule.desiredStatus view.children = view.schedule.status
  · rw [if_pos hsame] at hends
    cases hends with
    | done => exact ⟨.refl _, Or.inr ⟨rfl, view.schedule.metadata.version, by rw [View.written_of_same hsame]⟩⟩
  · rw [if_neg hsame] at hends
    cases hends with
    | writeScheduleStatus faults hcall =>
      have hbeset : Chronicle (site.store.beset faults :: site.store :: past) := hc.turn (Or.inl ⟨rfl, rfl, rfl⟩)
      obtain ⟨e, t, herror, hdata⟩ | ⟨hstored, -⟩ := settled_cases hbeset (hview.mono (List.subset_cons_self _ _))
      · unfold View.settled at herror
        dsimp only at hcall
        rw [herror] at hcall
        cases hcall with
        | note hdone =>
          cases hdone with
          | done => exact ⟨hdata.trans ⟨rfl, rfl, rfl⟩, Or.inl ⟨e, rfl⟩⟩
      · exact absurd (Listing.mem_schedule.1 hstored) hgone

/-- Whether the view is up to date or not, the status is written with all work items left alone, or the pass learns
of a fault or of another schedule. -/
lemma writeStatus_seen {r : Except StoreError Schedule} (hc : Chronicle (site.store :: past))
    (hview : Held (site.store :: past) view.schedule) (h : (writeStatus key view).Endures site log r mid) :
    (∃ e, r = .error e ∧ Store.SameData mid.store site.store ∧ (log = [.status e] ∨
        site.store.objects.schedules[view.schedule.metadata.key]? ≠ some view.schedule)) ∨
      log = [] ∧ ∃ version, r = .ok (view.written version) ∧
        mid.store.objects.workItems = site.store.objects.workItems ∧ mid.store.objects.Keyed := by
  have hkeyed := hc.keyed List.mem_cons_self
  by_cases hstored : site.store.objects.schedules[view.schedule.metadata.key]? = some view.schedule
  · obtain ⟨e, rfl, rfl, hsame⟩ | ⟨rfl, version, rfl, hobjects⟩ := writeStatus_endures hstored h
    · exact Or.inl ⟨e, rfl, hsame, Or.inl rfl⟩
    · refine Or.inr ⟨rfl, version, rfl, ?_⟩
      rw [hobjects]
      exact ⟨rfl, hkeyed.put _⟩
  · obtain ⟨hsame, ⟨e, rfl⟩ | ⟨rfl, version, rfl⟩⟩ := writeStatus_outdated hc hview hstored h
    · exact Or.inl ⟨e, rfl, hsame, Or.inr hstored⟩
    · refine Or.inr ⟨rfl, version, rfl, ?_⟩
      rw [hsame.objects]
      exact ⟨rfl, hkeyed⟩

/-! ## The end -/

lemma launch_stops {y : Schedule} {wait : Action} (htemplate : WorkItem.ofTemplate y fire = .error cause)
    (h : (launch key y fire wait).Endures site log o after) :
    o = .finished .done ∧ after.records.head? = some ⟨key, .badTemplate cause⟩ := by
  unfold launch at h
  rw [htemplate] at h
  cases h with
  | note hdone =>
    cases hdone with
    | done => exact ⟨rfl, rfl⟩

/-- Once the status is written, a pass that reaches a fire ends at the template. -/
lemma settle_stops (hnow : site.clock.Representable) (hreaches : Reaches cap site.clock view fire)
    (htemplate : WorkItem.ofTemplate view.settled fire = .error cause)
    (h : (settle cap key view view.settled).Endures site log o after) :
    o = .finished .done ∧ after.records.head? = some ⟨key, .badTemplate cause⟩ := by
  obtain ⟨wait, hattempt⟩ := (reaches_iff hnow).1 hreaches
  obtain ⟨u, pruned, first, rest, rfl, hprune, hdecide⟩ := Client.Endures.of_andThen h
  have hserve := schedule_endures hdecide
  rw [hprune.clock_eq, hattempt] at hserve
  obtain ⟨u', cleared, second, third, rfl, -, hlaunch⟩ := Client.Endures.of_andThen hserve
  exact launch_stops htemplate hlaunch

/-! ## What is gone -/

lemma Outnumbered.isTerminal {spec : ScheduleSpec} {children : List WorkItem} (h : Outnumbered spec children w) :
    w.status.phase.isTerminal = true := by
  obtain ⟨limit, hlimit, -⟩ := h
  cases hphase : w.status.phase with
  | pending => simp [hphase, ScheduleSpec.limit?] at hlimit
  | running => simp [hphase, ScheduleSpec.limit?] at hlimit
  | succeeded => rfl
  | failed => rfl

/-- An active child is discarded exactly where a missed fire makes the policy replace it. -/
lemma discards_active_iff (hchild : c ∈ view.children) (hactive : c.status.phase.isTerminal = false) :
    Discards cap now view c ↔
      view.schedule.spec.concurrency = .replace ∧ ∃ fire, Misses cap view.settled now fire := by
  constructor
  · rintro ⟨-, hmany | ⟨-, hreplace⟩⟩
    · rw [hmany.isTerminal] at hactive
      simp at hactive
    · exact hreplace
  · exact fun hreplace => ⟨hchild, Or.inr ⟨hactive, hreplace⟩⟩

/-- A fire whose template fails is not tried. -/
lemma not_tries (hnow : now.Representable) (hreaches : Reaches cap now view fire)
    (htemplate : WorkItem.ofTemplate view.settled fire = .error cause) : ¬Tries cap now view w := by
  rintro ⟨fire', wait, hattempt, hmade⟩
  obtain ⟨wait', hattempt'⟩ := (reaches_iff hnow).1 hreaches
  obtain ⟨rfl, -⟩ := Prod.mk.inj (Option.some.inj (hattempt.symm.trans hattempt'))
  rw [htemplate] at hmade
  simp at hmade

/-- Where nothing is tried, all stays that a pass does not discard. -/
lemma settle_keeps (hnow : site.clock.Representable) (hkeyed : site.store.objects.Keyed)
    (hkeys : view.children.Pairwise fun v w => compare v.metadata.key w.metadata.key = .lt)
    (hnodup : (view.children.map (·.metadata.key)).Nodup) (hnone : ∀ w, ¬Tries cap site.clock view w)
    (h : (settle cap key view view.settled).Endures site log o after) (k : Key) (v : WorkItem) :
    after.store.objects.workItems[k]? = some v ↔ site.store.objects.workItems[k]? = some v ∧
      ((∃ w, Discards cap site.clock view w ∧ w.metadata.key = k) → ∃ e, Mishap.delete k e ∈ log) := by
  obtain ⟨first, rest, cleared, rfl, hdeletes, hcreates, ⟨w, uid, htries, -⟩ | ⟨hsame, -⟩⟩ :=
    settle_endures hkeyed (nodup_dismissed hkeys hnodup) h
  · exact absurd htries (hnone w)
  · rw [hsame, hdeletes.workItems]
    simp only [mem_dismissed_iff hkeys hnow, mem_delete_append_iff hcreates]

/-- What becomes of the active children follows from what stays. -/
lemma stops_of_keep (hnodup : (view.children.map (·.metadata.key)).Nodup)
    (hreaches : Reaches cap site.clock view fire) (hnotice : after.records.head? = some ⟨key, .badTemplate cause⟩)
    (hkeep : ∀ k v, after.store.objects.workItems[k]? = some v ↔ site.store.objects.workItems[k]? = some v ∧
      ((∃ w, Discards cap site.clock view w ∧ w.metadata.key = k) → ∃ e, Mishap.delete k e ∈ log)) :
    Stops cap key view cause site log after := by
  refine ⟨hnotice, hkeep, fun hpolicy c hchild hactive => ?_, fun hreplace c hchild hactive => ?_⟩
  · have hstays : ¬∃ w, Discards cap site.clock view w ∧ w.metadata.key = c.metadata.key := by
      rintro ⟨w, hw, hkey⟩
      obtain rfl := List.inj_on_of_nodup_map hnodup hw.1 hchild hkey
      exact hpolicy ((discards_active_iff hchild hactive).1 hw).1
    refine Option.ext fun v => ?_
    rw [hkeep]
    exact and_iff_left fun hgone => absurd hgone hstays
  · have hgone := (discards_active_iff hchild hactive).2 ⟨hreplace, fire, hreaches.1⟩
    cases hafter : after.store.objects.workItems[c.metadata.key]? with
    | none => exact Or.inl rfl
    | some v => exact Or.inr (((hkeep _ v).1 hafter).2 ⟨c, hgone, rfl⟩)

/-- A pass from views of the past, which reaches a fire for which the template makes no work item, stops there. Before
that it may only learn that the status was not written, and then no data change. -/
theorem stops_at_template {m : Replica} {x : Schedule} (hc : Chronicle (site.store :: past))
    (hheld : Held (site.store :: past) x) (hm : m.Shows (site.store :: past)) (hnow : site.clock.Representable)
    (hreaches : Reaches cap site.clock (m.viewOf x) fire)
    (htemplate : WorkItem.ofTemplate (m.viewOf x).settled fire = .error cause)
    (h : (run cap key (some (m.viewOf x))).Endures site log o after) :
    (∃ e, o = .failed e ∧ Store.SameData after.store site.store ∧
        (log = [.status e] ∨ site.store.objects.schedules[x.metadata.key]? ≠ some x)) ∨
      o = .finished .done ∧ Stops cap key (m.viewOf x) cause site log after := by
  obtain ⟨t, ht, hobjects⟩ := hm
  have hmirror : m.objects.Keyed := hobjects ▸ hc.keyed ht
  have hkeys : (m.viewOf x).children.Pairwise fun v w => compare v.metadata.key w.metadata.key = .lt :=
    (Replica.pairwise_childrenOf hmirror _).sublist List.filter_sublist
  have hnodup : ((m.viewOf x).children.map (·.metadata.key)).Nodup :=
    (Replica.nodup_childrenOf hmirror _).sublist (List.filter_sublist.map _)
  obtain ⟨answer, mid, written, rest, rfl, hwrite, hrest⟩ := Client.Endures.of_andThen h
  obtain ⟨e, rfl, hsame, hwhy⟩ | ⟨rfl, version, rfl, hitems, hkeyed⟩ := writeStatus_seen hc hheld hwrite
  · left
    cases hrest with
    | done =>
      rw [List.append_nil]
      exact ⟨e, rfl, hsame, hwhy⟩
  · right
    have hsettle : (settle cap key (m.viewOf x) (m.viewOf x).settled).Endures mid rest o after := hrest
    have hclock := hwrite.clock_eq
    have hreached := hreaches
    rw [← hclock] at hnow hreached
    obtain ⟨hend, hnotice⟩ := settle_stops hnow hreached htemplate hsettle
    have hkeep := settle_keeps hnow hkeyed hkeys hnodup (fun w => not_tries hnow hreached htemplate) hsettle
    rw [hitems, hclock] at hkeep
    exact ⟨hend, stops_of_keep hnodup hreaches hnotice hkeep⟩

end

/-! ## A schedule that cannot launch -/

/-- A schedule of that policy whose template has no spec. -/
def barren (policy : Concurrency) : Schedule :=
  { eager with spec := { eager.spec with
      concurrency := policy
      template := { eager.spec.template with spec := .null } } }

/-- The schedule is stored, one child is done and one is at work. -/
def stalled (policy : Concurrency) : Store :=
  ((Store.empty.serve (.createSchedule ⟨.ofNat 1, .ofSecond 0⟩ (barren policy))).serve
    (.createWorkItem ⟨.ofNat 2, .ofSecond 60⟩ (eagerChild "done" .succeeded))).serve
    (.createWorkItem ⟨.ofNat 3, .ofSecond 61⟩ (eagerChild "busy" .running))

lemma served_stalled (policy : Concurrency) : ∃ past, Served (stalled policy :: past) := by
  have hcreated := Served.start.request (.createSchedule ⟨.ofNat 1, .ofSecond 0⟩ (barren policy))
  have hdone := hcreated.request (.createWorkItem ⟨.ofNat 2, .ofSecond 60⟩ (eagerChild "done" .succeeded))
  exact ⟨_, hdone.request (.createWorkItem ⟨.ofNat 3, .ofSecond 61⟩ (eagerChild "busy" .running))⟩

/-- The schedule as it is stored. -/
def barrenAt (policy : Concurrency) : Schedule :=
  ((stalled policy).objects.schedules[eager.metadata.key]?).getD (barren policy)

def stalledView (policy : Concurrency) : View :=
  (Replica.empty.replace (stalled policy).objects.toList (stalled policy).version).1.viewOf (barrenAt policy)

/-- A fire was missed. -/
def stalledSite (policy : Concurrency) : Site := ⟨stalled policy, .ofSecond 90, []⟩

def stalling (policy : Concurrency) : Client Outcome :=
  run 100 eager.metadata.key (some (stalledView policy))

/-- How the pass ends, and the site after it. -/
def stopped (policy : Concurrency) : Outcome × Site :=
  let ended := (stalling policy).run (fun n => .ofNat (n + 4)) (stalledSite policy) 0
  (ended.1, ended.2.1)

/-- Where children may overlap, the one at work stays. -/
theorem stops_at_template_allowed :
    (stopped .allow).2.store.objects.items.map (·.metadata.name) = ["busy"] ∧
      ∃ log, Stops 100 eager.metadata.key (stalledView .allow) (.invalidManifest .schedule .noTemplateSpec)
        (stalledSite .allow) log (stopped .allow).2 := by
  obtain ⟨past, hserved⟩ := served_stalled .allow
  have hc : Chronicle ((stalledSite .allow).store :: past) := hserved.chronicle
  have hstored : (stalled .allow).objects.schedules[(barrenAt .allow).metadata.key]? = some (barrenAt .allow) := by
    decide +kernel
  have hclock : (Instant.ofSecond 90).Representable := by
    unfold Instant.Representable
    decide +kernel
  have hreaches : Reaches 100 (.ofSecond 90) (stalledView .allow) (.ofSecond 60) :=
    (reaches_iff hclock).2 ⟨.requeueAfter 60000000000, by decide +kernel⟩
  have htemplate : WorkItem.ofTemplate (stalledView .allow).settled (.ofSecond 60) =
      .error (.invalidManifest .schedule .noTemplateSpec) := by decide +kernel
  obtain ⟨log, hendures⟩ := Client.run_endures (fun n => .ofNat (n + 4)) (stalling .allow) (stalledSite .allow) 0
  have hdone : (stopped .allow).1 = .finished .done := by decide +kernel
  obtain ⟨e, hfailed, -⟩ | ⟨-, hstops⟩ := stops_at_template hc
    ⟨_, List.mem_cons_self, Listing.mem_schedule.2 hstored⟩
    ⟨_, List.mem_cons_self, (Replica.current_of_listing hc).objects⟩ hclock hreaches htemplate hendures
  · exact absurd (hdone.symm.trans hfailed) (by simp)
  · exact ⟨by decide +kernel, log, hstops⟩

/-- Where children replace each other, the one at work is deleted although nothing can be launched. -/
theorem clears_without_launch :
    WorkItem.ofTemplate (barrenAt .replace) (.ofSecond 60) = .error (.invalidManifest .schedule .noTemplateSpec) ∧
      (stalledView .replace).children.map (fun w => (w.metadata.name, w.status.phase)) =
        [("busy", .running), ("done", .succeeded)] ∧
      (stopped .replace).1 = .finished .done ∧
      (stopped .replace).2.records.head? =
        some ⟨eager.metadata.key, .badTemplate (.invalidManifest .schedule .noTemplateSpec)⟩ ∧
      (stopped .replace).2.store.objects.items = [] := by
  decide +kernel

end Timetable.Pass
