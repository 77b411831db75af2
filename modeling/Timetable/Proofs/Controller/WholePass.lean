import Timetable.Proofs.Controller.Enduring
import Timetable.Proofs.Controller.Lateness
import Timetable.Proofs.Controller.Pruning
import Timetable.Proofs.Object.Retention
import Timetable.Proofs.Replica.Views
import Timetable.Proofs.Store.Lineage

/-!
# The whole effect of a pass

What a pass leaves in the store is told by the schedule, by its children and by the calls that failed: the status that
the children imply, the finished children within the limits, the active ones unless a launch replaces them, and the
child of the missed fire if there is one and it may be launched.
-/

namespace Timetable

/-- How many finished items of a phase are kept, if that is limited. -/
def ScheduleSpec.limit? (spec : ScheduleSpec) : Phase → Option Nat
  | .succeeded => spec.successfulLimit
  | .failed => spec.failedLimit
  | .pending | .running => none

namespace Pass

/-- There is a limit for the phase of the item, and at least as many children in that phase are younger. -/
def Outnumbered (spec : ScheduleSpec) (children : List WorkItem) (w : WorkItem) : Prop :=
  ∃ limit, spec.limit? w.status.phase = some limit ∧
    limit ≤ children.countP fun v => w.isOlder v && v.status.phase == w.status.phase

/-- The schedule is not suspended, and its expression and its deadline make this the latest missed fire. -/
def Misses (cap : Nat) (y : Schedule) (now fire : Instant) : Prop :=
  y.spec.suspend = false ∧ ∃ e deadline next, Cron.Expr.parse y.spec.schedule = .ok e ∧
    y.startingDeadline = .ok deadline ∧
    e.decision cap (y.status.lastScheduled.getD y.metadata.created) deadline now = .ok ⟨some fire, next⟩

/-- A fire is missed and the policy permits to launch for it. -/
def Reaches (cap : Nat) (now : Instant) (view : View) (fire : Instant) : Prop :=
  Misses cap view.settled now fire ∧
    (view.schedule.spec.concurrency = .forbid → ∀ v ∈ view.children, v.status.phase.isTerminal = true)

/-- A child that a pass deletes: a finished one that is outnumbered, or an active one that a launch replaces. -/
def Discards (cap : Nat) (now : Instant) (view : View) (w : WorkItem) : Prop :=
  w ∈ view.children ∧ (Outnumbered view.schedule.spec view.children w ∨
    w.status.phase.isTerminal = false ∧ view.schedule.spec.concurrency = .replace ∧
      ∃ fire, Misses cap view.settled now fire)

/-- A work item that a pass leaves under its key: one that it does not delete, or whose deletion failed. -/
def Stays (cap : Nat) (now : Instant) (view : View) (log : List Mishap) (l : Listing) (k : Key) (w : WorkItem) : Prop :=
  l.workItems[k]? = some w ∧ (Discards cap now view w → ∃ e, Mishap.delete k e ∈ log)

/-- The work item that a pass launches. -/
structure Launches (cap : Nat) (now : Instant) (view : View) (log : List Mishap) (l : Listing) (w : WorkItem) :
    Prop where
  child : ∃ fire, Reaches cap now view fire ∧ WorkItem.ofTemplate view.settled fire = .ok w
  unharmed : ∀ e, .create e ∉ log
  valid : ∃ key, Key.of? w.metadata.space w.metadata.name = .ok key
  free : ∀ v, ¬Stays cap now view log l w.metadata.key v

/-- From one listing to the next a pass has its effect. -/
structure TakesEffect (cap : Nat) (now : Instant) (view : View) (log : List Mishap) (l l' : Listing) : Prop where
  /-- The schedule has the status that its children imply. All else of it stays, and so do other schedules. -/
  schedules : ∃ version, ∀ k : Key, l'.schedules[k]? =
    if view.schedule.metadata.key = k then some (view.written version) else l.schedules[k]?
  /-- At most one work item is launched. -/
  single : ∀ v w, Launches cap now view log l v → Launches cap now view log l w → v = w
  /-- What is launched is stored as it comes from the template. -/
  launched : ∀ w, Launches cap now view log l w → ∃ uid version, l'.workItems[w.metadata.key]? =
    some { w with metadata := { w.metadata with uid, created := now, version } }
  workItems : ∀ k, (∀ w, Launches cap now view log l w → w.metadata.key ≠ k) →
    ∀ v, l'.workItems[k]? = some v ↔ Stays cap now view log l k v

section
variable {cap : Nat} {now fire : Instant} {y : Schedule} {active children : List WorkItem} {spec : ScheduleSpec}
  {w : WorkItem}

/-! ## What is asked for -/

/-- The children in a phase beyond the limit for it. -/
def beyond (spec : ScheduleSpec) (phase : Phase) (children : List WorkItem) : List WorkItem :=
  match spec.limit? phase with
  | none => []
  | some n => oldestExcess (·.status.started) n (children.filter fun w => w.status.phase == phase)

lemma excess_eq (spec : ScheduleSpec) (children : List WorkItem) :
    excess spec children = beyond spec .failed children ++ beyond spec .succeeded children := rfl

lemma mem_beyond_iff (hkeys : children.Pairwise fun v w => compare v.metadata.key w.metadata.key = .lt)
    (phase : Phase) :
    w ∈ beyond spec phase children ↔ w ∈ children ∧ w.status.phase = phase ∧ Outnumbered spec children w := by
  unfold beyond Outnumbered
  cases hlimit : spec.limit? phase with
  | none =>
    simp only [List.not_mem_nil, false_iff, not_and]
    rintro - hphase ⟨limit, hsome, -⟩
    rw [hphase, hlimit] at hsome
    simp at hsome
  | some n =>
    rw [WorkItem.mem_oldestExcess_iff (hkeys.sublist List.filter_sublist), List.countP_filter, List.mem_filter,
      beq_iff_eq, and_assoc]
    refine and_congr_right fun _ => and_congr_right fun hphase => ?_
    simp [hphase, hlimit]

/-- What is pruned are the children that are outnumbered. -/
lemma mem_excess_iff (hkeys : children.Pairwise fun v w => compare v.metadata.key w.metadata.key = .lt) :
    w ∈ excess spec children ↔ w ∈ children ∧ Outnumbered spec children w := by
  rw [excess_eq, List.mem_append, mem_beyond_iff hkeys, mem_beyond_iff hkeys]
  constructor
  · rintro (⟨hw, -, hmany⟩ | ⟨hw, -, hmany⟩)
    · exact ⟨hw, hmany⟩
    · exact ⟨hw, hmany⟩
  · rintro ⟨hw, hmany⟩
    obtain ⟨limit, hlimit, -⟩ := id hmany
    cases hphase : w.status.phase with
    | pending => simp [hphase, ScheduleSpec.limit?] at hlimit
    | running => simp [hphase, ScheduleSpec.limit?] at hlimit
    | succeeded => exact Or.inr ⟨hw, rfl, hmany⟩
    | failed => exact Or.inl ⟨hw, rfl, hmany⟩

lemma nodup_beyond (hnodup : children.Nodup) (phase : Phase) : (beyond spec phase children).Nodup := by
  unfold beyond
  split
  · exact List.nodup_nil
  · unfold oldestExcess
    refine List.Nodup.sublist (List.take_sublist _ _) ?_
    exact (List.mergeSort_perm _ _).nodup_iff.2 (hnodup.filter _)

lemma nodup_excess (hkeys : children.Pairwise fun v w => compare v.metadata.key w.metadata.key = .lt)
    (hnodup : children.Nodup) : (excess spec children).Nodup := by
  rw [excess_eq]
  refine (nodup_beyond hnodup _).append (nodup_beyond hnodup _) fun w hfailed hdone => ?_
  have hphase := ((mem_beyond_iff hkeys _).1 hfailed).2.1
  rw [((mem_beyond_iff hkeys _).1 hdone).2.1] at hphase
  simp at hphase

lemma attempt?_eq_some_iff (hnow : now.Representable) :
    (∃ wait, attempt? cap y active now = some (fire, wait)) ↔
      Misses cap y now fire ∧ (y.spec.concurrency = .forbid → active = []) := by
  constructor
  · rintro ⟨wait, h⟩
    have hjudge := judge_of_attempt h
    unfold attempt? at h
    split_ifs at h with hsuspend
    obtain ⟨next, deadline, hjudge⟩ := hjudge
    rw [hjudge] at h
    dsimp only at h
    split_ifs at h with hstay
    push Not at hstay
    obtain ⟨e, hparse, hdeadline, hdecision⟩ := judge_eq_decided_iff.1 hjudge
    exact ⟨⟨by simpa using hsuspend, e, deadline, next, hparse, hdeadline, hdecision⟩, hstay.2⟩
  · rintro ⟨⟨hsuspend, e, deadline, next, hparse, hdeadline, hdecision⟩, hpermitted⟩
    have hjudge : judge cap y now = .decided ⟨some fire, next⟩ deadline :=
      judge_eq_decided_iff.2 ⟨e, hparse, hdeadline, hdecision⟩
    have hstay : ¬(isLate fire deadline now ∨ (y.spec.concurrency = .forbid ∧ active ≠ [])) := by
      rw [not_isLate hnow hjudge]
      rintro (hlate | ⟨hforbid, hactive⟩)
      · simp at hlate
      · exact hactive (hpermitted hforbid)
    refine ⟨.requeueAfter (Cron.Decision.waitFrom ⟨some fire, next⟩ now), ?_⟩
    unfold attempt?
    rw [if_neg (by simp [hsuspend]), hjudge]
    dsimp only
    rw [if_neg hstay]

end

/-! ## What is deleted -/

/-- The children that a pass asks to be deleted. -/
def dismissed (cap : Nat) (now : Instant) (view : View) : List WorkItem :=
  let active := (Buckets.ofItems view.children).active
  excess view.schedule.spec view.children ++
    if (attempt? cap view.settled active now).isSome then replaced view.settled active else []

/-- A work item that a pass tries to launch. -/
def Tries (cap : Nat) (now : Instant) (view : View) (w : WorkItem) : Prop :=
  ∃ fire wait, attempt? cap view.settled (Buckets.ofItems view.children).active now = some (fire, wait) ∧
    WorkItem.ofTemplate view.settled fire = .ok w

section
variable {cap : Nat} {now fire : Instant} {view : View} {v w : WorkItem}

lemma Tries.unique (h : Tries cap now view v) (h' : Tries cap now view w) : v = w := by
  obtain ⟨fire, wait, hattempt, htemplate⟩ := h
  obtain ⟨fire', wait', hattempt', htemplate'⟩ := h'
  obtain ⟨rfl, -⟩ := Prod.mk.inj (Option.some.inj (hattempt.symm.trans hattempt'))
  exact Except.ok.inj (htemplate.symm.trans htemplate')

/-- Where a fire is reached, its launch is tried. -/
lemma reaches_iff (hnow : now.Representable) : Reaches cap now view fire ↔
    ∃ wait, attempt? cap view.settled (Buckets.ofItems view.children).active now = some (fire, wait) := by
  have hactive : (Buckets.ofItems view.children).active = [] ↔
      ∀ v ∈ view.children, v.status.phase.isTerminal = true := by
    unfold Buckets.ofItems
    simp [List.filter_eq_nil_iff]
  rw [attempt?_eq_some_iff hnow, hactive]
  exact Iff.rfl

lemma mem_replaced_iff : w ∈ replaced view.settled (Buckets.ofItems view.children).active ↔
    w ∈ view.children ∧ w.status.phase.isTerminal = false ∧ view.schedule.spec.concurrency = .replace := by
  have hspec : view.settled.spec = view.schedule.spec := rfl
  unfold replaced Buckets.ofItems
  rw [hspec]
  by_cases hreplace : view.schedule.spec.concurrency = .replace
  · simp [hreplace]
  · simp [hreplace]

variable (hkeys : view.children.Pairwise fun v w => compare v.metadata.key w.metadata.key = .lt)
include hkeys

theorem mem_dismissed_iff (hnow : now.Representable) : w ∈ dismissed cap now view ↔ Discards cap now view w := by
  have hattempt : view.schedule.spec.concurrency = .replace →
      ((attempt? cap view.settled (Buckets.ofItems view.children).active now).isSome ↔
        ∃ fire, Misses cap view.settled now fire) := by
    intro hreplace
    have hpermitted : ∀ fire, Reaches cap now view fire ↔ Misses cap view.settled now fire := by
      intro fire
      unfold Reaches
      simp [hreplace]
    simp only [Option.isSome_iff_exists, Prod.exists, ← hpermitted, reaches_iff hnow]
  unfold dismissed Discards
  dsimp only
  rw [List.mem_append, mem_excess_iff hkeys]
  constructor
  · rintro (⟨hw, hmany⟩ | hw)
    · exact ⟨hw, Or.inl hmany⟩
    · split_ifs at hw with hsome
      · obtain ⟨hchild, hactive, hreplace⟩ := mem_replaced_iff.1 hw
        exact ⟨hchild, Or.inr ⟨hactive, hreplace, (hattempt hreplace).1 hsome⟩⟩
      · simp at hw
  · rintro ⟨hw, hmany | ⟨hactive, hreplace, hmiss⟩⟩
    · exact Or.inl ⟨hw, hmany⟩
    · right
      rw [if_pos ((hattempt hreplace).2 hmiss)]
      exact mem_replaced_iff.2 ⟨hw, hactive, hreplace⟩

lemma nodup_dismissed (hnodup : (view.children.map (·.metadata.key)).Nodup) :
    ((dismissed cap now view).map (·.metadata.key)).Nodup := by
  have hchild : ∀ w ∈ dismissed cap now view, w ∈ view.children := by
    intro w hw
    obtain hw | hw := List.mem_append.1 hw
    · exact mem_of_mem_excess hw
    · split_ifs at hw
      · exact (mem_replaced_iff.1 hw).1
      · simp at hw
  refine List.Nodup.map_on (fun v hv w hw => List.inj_on_of_nodup_map hnodup (hchild v hv) (hchild w hw)) ?_
  have hitems := List.Nodup.of_map _ hnodup
  unfold dismissed
  dsimp only
  refine (nodup_excess hkeys hitems).append ?_ fun w hexcess hw => ?_
  · unfold replaced
    split_ifs
    · exact hitems.filter _
    · exact List.nodup_nil
    · exact List.nodup_nil
  · split_ifs at hw
    · have hterminal := isTerminal_of_mem_excess hexcess
      rw [(mem_replaced_iff.1 hw).2.1] at hterminal
      simp at hterminal
    · simp at hw

end

/-! ## The parts of a pass -/

section
variable {cap : Nat} {key : Key} {view : View} {site mid after : Site} {log : List Mishap} {o : Outcome}

lemma noteAll_endures {α : Type} {notices : List Notice} {f : Unit → Client α} {a : α}
    (h : ((noteAll key notices).andThen f).Endures site log a after) :
    ∃ records, (f ()).Endures { site with records } log a after := by
  induction notices generalizing site with
  | nil => exact ⟨site.records, h⟩
  | cons n notices ih =>
    have hnote : (Client.note ⟨key, n⟩ ((noteAll key notices).andThen f)).Endures site log a after := h
    cases hnote with
    | note hrest =>
      obtain ⟨records, hends⟩ := ih hrest
      exact ⟨records, hends⟩

/-- The status is written, unless it is there already, or the pass learns of a fault and no data change. -/
lemma writeStatus_endures {r : Except StoreError Schedule}
    (hstored : site.store.objects.schedules[view.schedule.metadata.key]? = some view.schedule)
    (h : (writeStatus key view).Endures site log r mid) :
    (∃ e, log = [.status e] ∧ r = .error e ∧ Store.SameData mid.store site.store) ∨
      log = [] ∧ ∃ version, r = .ok (view.written version) ∧
        mid.store.objects = site.store.objects.put (.schedule (view.written version)) := by
  unfold writeStatus at h
  obtain ⟨records, hends⟩ := noteAll_endures h
  dsimp only at hends
  by_cases hsame : view.schedule.desiredStatus view.children = view.schedule.status
  · rw [if_pos hsame] at hends
    cases hends with
    | done =>
      refine Or.inr ⟨rfl, view.schedule.metadata.version, ?_, ?_⟩
      · rw [View.written_of_same hsame]
      · rw [View.written_of_same hsame, Listing.put_of_mem (Listing.mem_schedule.2 hstored)]
  · rw [if_neg hsame] at hends
    cases hends with
    | writeScheduleStatus faults hcall =>
      have hwrite := Store.updateScheduleStatus_eq (site.store.beset faults) view.settled
      unfold View.settled at hwrite
      cases hfault : faults.nextStatusUpdate with
      | some e =>
        have hset : (site.store.beset faults).faults.nextStatusUpdate = some e := hfault
        rw [hset] at hwrite
        dsimp only at hcall hwrite
        rw [hwrite] at hcall
        cases hcall with
        | note hdone =>
          cases hdone with
          | done => exact Or.inl ⟨e, rfl, rfl, ⟨rfl, rfl, rfl⟩⟩
      | none =>
        have hmade : (site.store.beset faults).updateScheduleStatus
            { view.schedule with status := view.schedule.desiredStatus view.children } = _ :=
          Store.updateScheduleStatus_calm hfault hstored rfl
        dsimp only at hcall
        rw [hmade] at hcall
        cases hcall with
        | done => exact Or.inr ⟨rfl, site.store.version + 1, rfl, rfl⟩

lemma schedule_endures {y : Schedule} {active : List WorkItem}
    (h : (schedule cap key y active).Endures site log o after) :
    match attempt? cap y active site.clock with
    | none => log = [] ∧ after.store = site.store
    | some (fire, wait) =>
      ((deleteAll key (replaced y active)).andThen fun _ => launch key y fire wait).Endures site log o after := by
  cases hattempt : attempt? cap y active site.clock with
  | none =>
    obtain ⟨o', hdone | ⟨next, hread, hnext⟩⟩ := schedule_of_idle key hattempt
    · rw [hdone] at h
      exact Client.Endures.of_every_false (c := .done o') trivial h
    · rw [hread] at h
      cases h with
      | readClock h =>
        refine h.of_every_false ?_
        obtain hnext | ⟨r, hnext⟩ := hnext
        · rw [hnext]
          trivial
        · rw [hnext]
          trivial
  | some attempt =>
    obtain ⟨fire, wait⟩ := attempt
    obtain ⟨next, hread, hnext⟩ := schedule_of_attempt key hattempt
    rw [hread] at h
    cases h with
    | readClock h =>
      rw [hnext] at h
      exact h

/-- After the status is written, some children are deleted, and a work item is launched if there is one to launch. -/
theorem settle_endures (hkeyed : site.store.objects.Keyed)
    (hnodup : ((dismissed cap site.clock view).map (·.metadata.key)).Nodup)
    (h : (settle cap key view view.settled).Endures site log o after) :
    ∃ first rest, ∃ cleared : Store, log = first ++ rest ∧
      Deletes (dismissed cap site.clock view) first site.store.objects cleared.objects ∧
      (∀ m ∈ rest, ∃ e, m = .create e) ∧
      ((∃ w uid, Tries cap site.clock view w ∧ rest = [] ∧ w.refusal cleared.objects.workItems = none ∧
          after.store.objects = cleared.objects.put (.workItem (cleared.newWorkItem ⟨uid, site.clock⟩ w))) ∨
        after.store.objects = cleared.objects ∧ ∀ w, Tries cap site.clock view w → rest = [] →
          w.refusal cleared.objects.workItems ≠ none) := by
  obtain ⟨u, pruned, first, rest, rfl, hprune, hdecide⟩ := Client.Endures.of_andThen h
  have hclock := hprune.clock_eq
  have hserve := schedule_endures hdecide
  rw [hclock] at hserve
  unfold dismissed at hnodup ⊢
  unfold Tries
  dsimp only at hnodup ⊢
  have hparts := hnodup
  rw [List.map_append] at hparts
  obtain ⟨hpruned, hmid⟩ := deleteAll_endures hkeyed hparts.of_append_left hprune
  cases hattempt : attempt? cap view.settled (Buckets.ofItems view.children).active site.clock with
  | none =>
    rw [hattempt] at hserve
    obtain ⟨rfl, hsame⟩ := hserve
    refine ⟨first, [], pruned.store, rfl, ?_, by simp, Or.inr ⟨by rw [hsame], by simp⟩⟩
    simpa using hpruned
  | some attempt =>
    obtain ⟨fire, wait⟩ := attempt
    rw [hattempt] at hserve hnodup hparts
    rw [Option.isSome_some, if_pos rfl] at hnodup hparts ⊢
    obtain ⟨u', cleared, second, third, rfl, hclear, hlaunch⟩ := Client.Endures.of_andThen hserve
    obtain ⟨hcleared, -⟩ := deleteAll_endures hmid hparts.of_append_right hclear
    obtain ⟨hcreates, hmade⟩ := launch_endures hlaunch
    refine ⟨first ++ second, third, cleared.store, (List.append_assoc _ _ _).symm, hpruned.append hcleared hnodup,
      hcreates, ?_⟩
    rw [hclear.clock_eq, hclock] at hmade
    obtain ⟨w, uid, htemplate, hquiet, hrefusal, hput⟩ | ⟨hsame, hrefused⟩ := hmade
    · exact Or.inl ⟨w, uid, ⟨fire, wait, rfl, htemplate⟩, hquiet, hrefusal, hput⟩
    · refine Or.inr ⟨hsame, ?_⟩
      rintro w ⟨fire', wait', hfire, htemplate⟩
      obtain ⟨rfl, -⟩ := Prod.mk.inj (Option.some.inj hfire)
      exact hrefused w htemplate

end

/-! ## The effect -/

section
variable {cap : Nat} {now fire : Instant} {view : View} {log first rest : List Mishap} {l cleared l' : Listing}
  {k : Key} {v w : WorkItem}

/-- Creations that failed say nothing of deletions. -/
lemma mem_delete_append_iff (hrest : ∀ m ∈ rest, ∃ e, m = .create e) {e : StoreError} :
    Mishap.delete k e ∈ first ++ rest ↔ Mishap.delete k e ∈ first := by
  rw [List.mem_append]
  refine or_iff_left fun hm => ?_
  obtain ⟨e', he⟩ := hrest _ hm
  simp at he

/-- Where deletions come first and creations after them, no status failed. -/
lemma status_notMem_append {ws : List WorkItem} (hdeletes : Deletes ws first l cleared)
    (hrest : ∀ m ∈ rest, ∃ e, m = .create e) (e : StoreError) : .status e ∉ first ++ rest := by
  intro he
  obtain he | he := List.mem_append.1 he
  · obtain ⟨w, -, e', heq⟩ := hdeletes.logged _ he
    simp at heq
  · obtain ⟨e', heq⟩ := hrest _ he
    simp at heq

/-- No creation failed exactly if nothing is logged after the deletions. -/
lemma create_notMem_append_iff {ws : List WorkItem} (hdeletes : Deletes ws first l cleared)
    (hrest : ∀ m ∈ rest, ∃ e, m = .create e) : (∀ e, .create e ∉ first ++ rest) ↔ rest = [] := by
  constructor
  · intro hnone
    by_contra hne
    obtain ⟨m, others, rfl⟩ := List.exists_cons_of_ne_nil hne
    obtain ⟨e, rfl⟩ := hrest m List.mem_cons_self
    exact hnone e (List.mem_append_right _ List.mem_cons_self)
  · rintro rfl e he
    rw [List.append_nil] at he
    obtain ⟨w, -, e', heq⟩ := hdeletes.logged _ he
    simp at heq

/-- What is left after the deletions is what stays. -/
lemma stays_iff (hnow : now.Representable) (hkeyed : l.Keyed)
    (hkeys : view.children.Pairwise fun v w => compare v.metadata.key w.metadata.key = .lt)
    (hchildren : ∀ w ∈ view.children, l.workItems[w.metadata.key]? = some w)
    (hdeletes : Deletes (dismissed cap now view) first l cleared) (hrest : ∀ m ∈ rest, ∃ e, m = .create e) :
    cleared.workItems[k]? = some v ↔ Stays cap now view (first ++ rest) l k v := by
  unfold Stays
  rw [hdeletes.workItems]
  simp only [mem_delete_append_iff hrest]
  refine and_congr_right fun hv => imp_congr ?_ Iff.rfl
  simp only [mem_dismissed_iff hkeys hnow]
  constructor
  · rintro ⟨w, hw, rfl⟩
    rwa [← Option.some.inj ((hchildren w hw.1).symm.trans hv)]
  · intro hdiscards
    exact ⟨v, hdiscards, hkeyed.workItem_key hv⟩

/-- Something is launched exactly where it is tried, meets no fault and is not refused. -/
lemma launches_iff (hnow : now.Representable)
    (hstays : ∀ k v, cleared.workItems[k]? = some v ↔ Stays cap now view log l k v) :
    Launches cap now view log l w ↔
      Tries cap now view w ∧ (∀ e, .create e ∉ log) ∧ w.refusal cleared.workItems = none := by
  have hfree : (∀ v, ¬Stays cap now view log l w.metadata.key v) ↔ cleared.workItems[w.metadata.key]? = none := by
    simp only [← hstays]
    exact Option.eq_none_iff_forall_ne_some.symm
  constructor
  · intro h
    obtain ⟨fire, hreaches, htemplate⟩ := h.child
    obtain ⟨wait, hattempt⟩ := (reaches_iff hnow).1 hreaches
    exact ⟨⟨fire, wait, hattempt, htemplate⟩, h.unharmed, WorkItem.refusal_eq_none_iff.2 ⟨h.valid, hfree.1 h.free⟩⟩
  · rintro ⟨⟨fire, wait, hattempt, htemplate⟩, hunharmed, hrefusal⟩
    obtain ⟨hvalid, hnone⟩ := WorkItem.refusal_eq_none_iff.1 hrefusal
    exact ⟨⟨fire, (reaches_iff hnow).2 ⟨wait, hattempt⟩, htemplate⟩, hunharmed, hvalid, hfree.2 hnone⟩

end

section
variable {cap version : Nat} {key : Key} {view : View} {site after : Site} {l : Listing} {log : List Mishap}
  {o : Outcome}

lemma settle_takesEffect (hnow : site.clock.Representable) (hkeyed : l.Keyed)
    (hkeys : view.children.Pairwise fun v w => compare v.metadata.key w.metadata.key = .lt)
    (hnodup : (view.children.map (·.metadata.key)).Nodup)
    (hchildren : ∀ w ∈ view.children, l.workItems[w.metadata.key]? = some w)
    (hobjects : site.store.objects = l.put (.schedule (view.written version)))
    (h : (settle cap key view view.settled).Endures site log o after) :
    (∀ e, .status e ∉ log) ∧ TakesEffect cap site.clock view log l after.store.objects := by
  have hput : (l.put (.schedule (view.written version))).Keyed := hkeyed.put _
  rw [← hobjects] at hput
  obtain ⟨first, rest, cleared, rfl, hdeletes, hcreates, hmade⟩ :=
    settle_endures hput (nodup_dismissed hkeys hnodup) h
  have hstays : ∀ k v, cleared.objects.workItems[k]? = some v ↔
      Stays cap site.clock view (first ++ rest) l k v := by
    intro k v
    rw [hobjects] at hdeletes
    exact stays_iff (l := l.put (.schedule (view.written version))) hnow (hkeyed.put _) hkeys hchildren hdeletes
      hcreates
  have hlaunches := fun w => launches_iff (w := w) hnow hstays
  have hunharmed := create_notMem_append_iff hdeletes hcreates
  have hschedules : ∀ k : Key, cleared.objects.schedules[k]? =
      if view.schedule.metadata.key = k then some (view.written version) else l.schedules[k]? := by
    intro k
    rw [hdeletes.schedules, hobjects]
    exact KeyMap.getElem?_insert _ _ _ _
  refine ⟨status_notMem_append hdeletes hcreates, ?_⟩
  have hsingle : ∀ v w, Launches cap site.clock view (first ++ rest) l v →
      Launches cap site.clock view (first ++ rest) l w → v = w := fun v w hv hw =>
    ((hlaunches v).1 hv).1.unique ((hlaunches w).1 hw).1
  obtain ⟨w, uid, htries, rfl, hrefusal, hafter⟩ | ⟨hsame, hrefused⟩ := hmade
  · have hmade : ∀ k : Key, after.store.objects.workItems[k]? = if w.metadata.key = k then
        some (cleared.newWorkItem ⟨uid, site.clock⟩ w) else cleared.objects.workItems[k]? := by
      intro k
      rw [hafter]
      exact KeyMap.getElem?_insert _ _ _ _
    refine ⟨⟨version, ?_⟩, hsingle, ?_, ?_⟩
    · rw [hafter]
      exact hschedules
    · intro v hv
      rw [((hlaunches v).1 hv).1.unique htries, hmade, if_pos rfl]
      exact ⟨uid, cleared.version + 1, rfl⟩
    · intro k hk v
      have hw : Launches cap site.clock view (first ++ []) l w :=
        (hlaunches w).2 ⟨htries, hunharmed.2 rfl, hrefusal⟩
      rw [hmade, if_neg (hk w hw), hstays]
  · refine ⟨⟨version, ?_⟩, hsingle, ?_, ?_⟩
    · rw [hsame]
      exact hschedules
    · intro w hw
      obtain ⟨htries, hnone, hrefusal⟩ := (hlaunches w).1 hw
      exact absurd hrefusal (hrefused w htries (hunharmed.1 hnone))
    · intro k _ v
      rw [hsame, hstays]

end

variable {cap : Nat} {key : Key} {s : Schedule} {r : Replica} {site after : Site} {log : List Mishap} {o : Outcome}

/-- From a replica that is up to date, a pass either learns that the status was not written, and changes no data, or
has its effect, whatever else fails. -/
theorem takes_effect (hkeyed : site.store.objects.Keyed) (hcurrent : r.Current site.store)
    (hclock : site.clock.Representable) (hs : site.store.objects.schedules[key]? = some s)
    (h : (run cap key (r.view? key)).Endures site log o after) :
    (∃ e, log = [.status e] ∧ o = .failed e ∧ Store.SameData after.store site.store) ∨
      (∀ e, .status e ∉ log) ∧ TakesEffect cap site.clock ⟨s, site.store.objects.childrenOf s⟩ log
        site.store.objects after.store.objects := by
  let view : View := ⟨s, site.store.objects.childrenOf s⟩
  rw [hcurrent.view?_eq hkeyed hs] at h
  have hkey := hkeyed.schedule_key hs
  have hstored : site.store.objects.schedules[view.schedule.metadata.key]? = some view.schedule := by
    rw [← hkey] at hs
    exact hs
  obtain ⟨answer, mid, written, others, rfl, hwrite, hrest⟩ := Client.Endures.of_andThen h
  obtain ⟨e, rfl, rfl, hsame⟩ | ⟨rfl, version, rfl, hobjects⟩ := writeStatus_endures hstored hwrite
  · left
    cases hrest with
    | done => exact ⟨e, rfl, rfl, hsame⟩
  · right
    rw [← hwrite.clock_eq] at hclock ⊢
    exact settle_takesEffect hclock hkeyed (hkeyed.pairwise_items.sublist List.filter_sublist)
      (hkeyed.nodup_childrenOf s) (fun w hw => (hkeyed.mem_childrenOf.1 hw).1) hobjects hrest

/-! ## A pass that clears its schedule -/

/-- A schedule that keeps no run that succeeded, and whose runs replace each other. -/
def eager : Schedule :=
  { Schedule.minutely with
    spec := { Schedule.minutely.spec with concurrency := .replace, successfulLimit := some 0 } }

def eagerChild (name : String) (phase : Phase) : WorkItem where
  metadata := { Meta.new "jobs" name .blank with owners := [⟨Kind.schedule.name, "tick", .ofNat 1, true⟩] }
  spec := .bool true
  status := ⟨phase, none, none⟩

/-- One child is done and one is at work, and the next creation fails. -/
def crowded : Store :=
  (((Store.empty.serve (.createSchedule ⟨.ofNat 1, .ofSecond 0⟩ eager)).serve
    (.createWorkItem ⟨.ofNat 2, .ofSecond 60⟩ (eagerChild "done" .succeeded))).serve
    (.createWorkItem ⟨.ofNat 3, .ofSecond 61⟩ (eagerChild "busy" .running))).serve
    (.setFaults ⟨some (.unavailable "disk"), none, none⟩)

lemma served_crowded : ∃ past, Served (crowded :: past) := by
  have hcreated := Served.start.request (.createSchedule ⟨.ofNat 1, .ofSecond 0⟩ eager)
  have hdone := hcreated.request (.createWorkItem ⟨.ofNat 2, .ofSecond 60⟩ (eagerChild "done" .succeeded))
  have hbusy := hdone.request (.createWorkItem ⟨.ofNat 3, .ofSecond 61⟩ (eagerChild "busy" .running))
  exact ⟨_, hbusy.request (.setFaults ⟨some (.unavailable "disk"), none, none⟩)⟩

/-- A pass over the schedule once a fire was missed. -/
def clearing : Client Outcome :=
  run 100 eager.metadata.key ((Replica.empty.replace crowded.objects.toList crowded.version).1.view? eager.metadata.key)

/-- How the pass ends, and the site after it. -/
def cleared : Outcome × Site :=
  let ended := clearing.run (fun n => .ofNat (n + 4)) ⟨crowded, .ofSecond 90, []⟩ 0
  (ended.1, ended.2.1)

lemma cleared_endures : ∃ log, clearing.Endures ⟨crowded, .ofSecond 90, []⟩ log cleared.1 cleared.2 :=
  Client.run_endures _ clearing ⟨crowded, .ofSecond 90, []⟩ 0

/-- Both children are deleted, and the launch that they make way for fails. -/
theorem takes_effect_crowded :
    cleared.1 = .failed (.unavailable "disk") ∧ cleared.2.store.objects.items = [] ∧
      ∃ s log, crowded.objects.schedules[eager.metadata.key]? = some s ∧
        clearing.Endures ⟨crowded, .ofSecond 90, []⟩ log cleared.1 cleared.2 ∧
        TakesEffect 100 (.ofSecond 90) ⟨s, crowded.objects.childrenOf s⟩ log crowded.objects
          cleared.2.store.objects := by
  obtain ⟨past, hserved⟩ := served_crowded
  have hexists : (crowded.objects.schedules[eager.metadata.key]?).isSome := by decide +kernel
  obtain ⟨s, hs⟩ := Option.isSome_iff_exists.1 hexists
  have hclock : (Instant.ofSecond 90).Representable := by
    unfold Instant.Representable
    decide +kernel
  have hwrote : cleared.2.store.version ≠ crowded.version := by decide +kernel
  obtain ⟨log, hendures⟩ := cleared_endures
  have hkeyed : (Site.mk crowded (.ofSecond 90) []).store.objects.Keyed :=
    hserved.chronicle.keyed List.mem_cons_self
  have heffect := takes_effect hkeyed (Replica.current_of_listing hserved.chronicle) hclock hs hendures
  obtain ⟨-, heffect⟩ := heffect.resolve_left fun ⟨_, _, _, hsame⟩ => hwrote hsame.version
  exact ⟨by decide +kernel, by decide +kernel, s, log, hs, hendures, heffect⟩

end Pass

end Timetable
