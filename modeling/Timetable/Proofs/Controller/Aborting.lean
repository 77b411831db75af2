import Timetable.Controller.Pool
import Timetable.Proofs.Controller.Pruning
import Timetable.Proofs.Cron.Limits
import Timetable.Proofs.Store.Lineage

/-!
# Passes that are aborted

A pass is aborted exactly if its schedule asks for a period that cannot be held, of seconds or between the values of
a field, or for one that leads past the end of the calendar. Any other expression that allows no decision ends the
pass with a notice, and no other pass is asked for.
-/

namespace Timetable

open Cron

namespace Client
variable {α : Type} {c : Client α} {site after : Site} {a : α}

/-- An undisturbed client sees one time only. -/
lemma Ends.clock_eq (h : c.Ends site a after) : after.clock = site.clock := by
  obtain ⟨uids, minted, rest, hrun⟩ := h
  have hclock : (c.run uids site minted).2.1.clock = site.clock := by
    clear hrun
    induction c generalizing site minted with
    | done a => rfl
    | listItems next ih => exact ih _ _
    | writeScheduleStatus x next ih => exact ih _ _
    | createItem w next ih => exact ih _ _
    | writeItemStatus w next ih => exact ih _ _
    | deleteItem key next ih => exact ih _ _
    | readClock next ih => exact ih _ _
    | note r next ih => exact ih _
  rw [hrun] at hclock
  exact hclock

end Client

/-- A schedule asks for a period that cannot be held or, with a deadline in order, for one that leads from now past
the end of the calendar. -/
def Schedule.Outreaches (s : Schedule) (now : Instant) : Prop :=
  Overlong s.spec.schedule ∨
    (∃ deadline, s.startingDeadline = .ok deadline) ∧ ∃ n, AsksEvery s.spec.schedule n ∧ Expr.Leaves n now

namespace Pass
variable {cap : Nat} {s y : Schedule} {now : Instant} {n : Notice} {key : Key} {view : View}
  {site after : Site} {o : Outcome} {active : List WorkItem} {fire : Instant} {wait : Action}

/-- What a verdict rests on. -/
lemma judge_eq_aborted :
    judge cap s now = .aborted ↔ Expr.parse s.spec.schedule = .error .overlongPeriod ∨
      ∃ e deadline, Expr.parse s.spec.schedule = .ok e ∧ s.startingDeadline = .ok deadline ∧
        e.decision cap (s.status.lastScheduled.getD s.metadata.created) deadline now =
          .error .beyondCalendar := by
  unfold judge
  constructor
  · intro h
    split at h
    · rename_i hparse
      exact .inl hparse
    · simp at h
    · rename_i e hparse
      split at h
      · simp at h
      · rename_i deadline hdeadline
        split at h
        · rename_i hdecision
          exact .inr ⟨e, deadline, hparse, hdeadline, hdecision⟩
        · simp at h
        · simp at h
  · rintro (hparse | ⟨e, deadline, hparse, hdeadline, hdecision⟩)
    · simp only [hparse]
    · simp only [hparse, hdeadline, hdecision]

/-- A verdict is aborted exactly if the schedule asks for too much. -/
theorem judge_eq_aborted_iff (hlast : (s.status.lastScheduled.getD s.metadata.created).InFourDigitYear)
    (hnow : now.InFourDigitYear) : judge cap s now = .aborted ↔ s.Outreaches now := by
  rw [judge_eq_aborted, parse_eq_overlong_iff]
  constructor
  · rintro (hlong | ⟨e, deadline, hparse, hdeadline, hdecision⟩)
    · exact .inl hlong
    · exact .inr ⟨⟨deadline, hdeadline⟩, (Expr.decision_eq_beyond_iff hlast hnow hparse).1 hdecision⟩
  · rintro (hlong | ⟨⟨deadline, hdeadline⟩, n, hn, hleaves⟩)
    · exact .inl hlong
    · by_cases hlong : longestPeriod < n
      · exact .inl (.inl ⟨n, hn, hlong⟩)
      · obtain ⟨zone, hparse⟩ := parse_of_asks hn
        rw [if_pos (not_lt.1 hlong)] at hparse
        exact .inr ⟨_, deadline, hparse, hdeadline,
          (Expr.decision_eq_beyond_iff hlast hnow hparse).2 ⟨n, hn, hleaves⟩⟩

lemma reason_of_refused (h : judge cap s now = .refused n) :
    n.reason = "InvalidSchedule" ∨ n.reason = "TooManyMissedRuns" := by
  unfold judge at h
  split at h
  · simp at h
  · obtain rfl := Verdict.refused.inj h
    exact .inl rfl
  · split at h
    · obtain rfl := Verdict.refused.inj h
      exact .inl rfl
    · split at h
      · simp at h
      · rename_i e _ _
        obtain rfl := Verdict.refused.inj h
        cases e with
        | tooManyMissed cap => exact .inr rfl
        | unsatisfiable source => exact .inl rfl
        | beyondCalendar => exact .inl rfl
      · simp at h

/-! ## The parts of a pass -/

lemma launch_ne_aborted (h : (launch key s fire wait).Ends site o after) : o ≠ .aborted := by
  unfold launch at h
  split at h
  · obtain ⟨rfl, -⟩ := h.of_note.of_done
    exact nofun
  · obtain ⟨stamp, hanswer⟩ := h.of_createItem
    split at hanswer
    · obtain ⟨rfl, -⟩ := hanswer.of_note.of_done
      exact nofun
    · obtain ⟨rfl, -⟩ := hanswer.of_done
      exact nofun
    · obtain ⟨rfl, -⟩ := hanswer.of_note.of_done
      exact nofun

lemma serve_ne_aborted {deadline : Option Int}
    (h : (serve key s active fire deadline now wait).Ends site o after) : o ≠ .aborted := by
  unfold serve at h
  split_ifs at h
  · obtain ⟨rfl, -⟩ := h.of_note.of_done
    exact nofun
  · split at h
    · obtain ⟨rfl, -⟩ := h.of_note.of_done
      exact nofun
    · obtain ⟨-, mid, -, hlaunch⟩ := h.of_andThen
      exact launch_ne_aborted hlaunch
    · exact launch_ne_aborted h

/-- How a pass ends whose verdict it is. -/
def Verdict.EndsIn (key : Key) (o : Outcome) (after : Site) : Verdict → Prop
  | .aborted => o = .aborted
  | .refused n => o = .finished .done ∧ after.records.head? = some ⟨key, n⟩
  | .decided .. => o ≠ .aborted

lemma schedule_ends (hrun : s.spec.suspend = false) (h : (schedule cap key s active).Ends site o after) :
    (judge cap s site.clock).EndsIn key o after := by
  unfold schedule at h
  rw [hrun] at h
  have hnext := h.of_readClock
  cases hjudge : judge cap s site.clock with
  | aborted =>
    rw [hjudge] at hnext
    exact hnext.of_done.1
  | refused n =>
    rw [hjudge] at hnext
    obtain ⟨rfl, rfl⟩ := hnext.of_note.of_done
    exact ⟨rfl, rfl⟩
  | decided d deadline =>
    rw [hjudge] at hnext
    dsimp only at hnext
    split at hnext
    · obtain ⟨rfl, -⟩ := hnext.of_done
      exact nofun
    · exact serve_ne_aborted hnext

/-- The status is written, unless that fails; the schedule in view goes on with it. -/
lemma writeStatus_answer {r : Except StoreError Schedule} {past : List Store}
    (hc : Chronicle (site.store :: past)) {t : Store} (ht : t ∈ site.store :: past)
    (hview : .schedule view.schedule ∈ t.objects) (h : (writeStatus key view).Ends site r after) :
    (∃ e, r = .error e ∧ after.records.head? = some ⟨key, .statusFailed e⟩) ∨
      ∃ v, r = .ok (view.written v) := by
  unfold writeStatus at h
  obtain ⟨records, hends⟩ := noteAll_ends h
  dsimp only at hends
  split_ifs at hends with hsame
  · obtain ⟨rfl, -⟩ := hends.of_done
    right
    exact ⟨view.schedule.metadata.version, by rw [View.written_of_same hsame]⟩
  · have hcall := hends.of_writeScheduleStatus
    obtain ⟨e, u, hwrite, -⟩ | ⟨x, hx, hversion, u, hwrite, -⟩ :=
      Store.updateScheduleStatus_cases site.store
        { view.schedule with status := view.schedule.desiredStatus view.children }
    · dsimp only at hcall
      rw [hwrite] at hcall
      obtain ⟨rfl, rfl⟩ := hcall.of_note.of_done
      exact .inl ⟨e, rfl, rfl⟩
    · dsimp only at hcall
      rw [hwrite] at hcall
      obtain ⟨rfl, -⟩ := hcall.of_done
      -- the stored schedule has the version in view
      have hstored : .schedule x ∈ site.store.objects := by
        rw [Listing.mem_schedule, (hc.keyed List.mem_cons_self).schedule_key hx]
        exact hx
      have heq := hc.mem_eq List.mem_cons_self ht hstored hview hversion
      obtain rfl := Object.schedule.inj heq
      exact .inr ⟨site.store.version + 1, rfl⟩

/-- Unless its status cannot be written or it is suspended, a pass ends as its verdict says. -/
theorem run_verdict {past : List Store} (hc : Chronicle (site.store :: past)) {t : Store}
    (ht : t ∈ site.store :: past) (hview : .schedule view.schedule ∈ t.objects)
    (h : (run cap key (some view)).Ends site o after) :
    (∃ e, o = .failed e ∧ after.records.head? = some ⟨key, .statusFailed e⟩) ∨
      (view.schedule.spec.suspend = true ∧ o = .finished .done) ∨
      view.schedule.spec.suspend = false ∧
        (judge cap view.settled site.clock).EndsIn key o after := by
  obtain ⟨r, mid, hwrite, hrest⟩ := Client.Ends.of_andThen h
  obtain ⟨e, rfl, hnote⟩ | ⟨v, rfl⟩ := writeStatus_answer hc ht hview hwrite
  · obtain ⟨rfl, rfl⟩ := hrest.of_done
    exact .inl ⟨e, rfl, hnote⟩
  · obtain ⟨u, pruned, hprune, hdecide⟩ := hrest.of_andThen
    have hclock : pruned.clock = site.clock := hprune.clock_eq.trans hwrite.clock_eq
    right
    have hverdict : judge cap (view.written v) pruned.clock = judge cap view.settled site.clock := by
      rw [hclock]
      exact judge_congr rfl rfl
    have hspec : (view.written v).spec = view.schedule.spec := rfl
    cases hsuspend : view.schedule.spec.suspend with
    | true =>
      left
      unfold schedule at hdecide
      rw [hspec, if_pos hsuspend] at hdecide
      exact ⟨rfl, hdecide.of_done.1⟩
    | false =>
      right
      rw [← hspec] at hsuspend
      have hends := schedule_ends hsuspend hdecide
      rw [hverdict] at hends
      exact ⟨rfl, hends⟩

/-! ## Limits of a text -/

/-- Reading a text, looking for its fires and passing over its schedule end as they should unless the text asks for
a period that cannot be held or that outreaches the calendar. All values of a part have room in a word of 64 bits, and
they are met unless the first stride leaves its word. A pass without a decision that is not aborted gives a notice and
is not tried again. -/
theorem run_within_limits (text : String) :
    (Expr.parse text = .error .overlongPeriod ↔ Overlong text) ∧
      (∀ field part b, IsPart field part b →
        b.hi < 64 ∧ parsePart field part = if b.InWord then .ok b.values else .error .overlongPeriod) ∧
      (∀ e, Expr.parse text = .ok e →
        (∀ t : Instant, t.InFourDigitYear →
          (e.nextAfter t = .beyond ↔ ∃ n, AsksEvery text n ∧ Expr.Leaves n t)) ∧
        ∀ (cap : Nat) (last now : Instant) (deadline : Option Int), last.InFourDigitYear →
          now.InFourDigitYear →
          (e.decision cap last deadline now = .error .beyondCalendar ↔
            ∃ n, AsksEvery text n ∧ Expr.Leaves n now)) ∧
      ∀ (cap : Nat) (key : Key) (view : View) (site after : Site) (past : List Store) (o : Outcome),
        view.schedule.spec.schedule = text → Chronicle (site.store :: past) →
        (∃ t ∈ site.store :: past, .schedule view.schedule ∈ t.objects) →
        (view.settled.status.lastScheduled.getD view.schedule.metadata.created).InFourDigitYear →
        site.clock.InFourDigitYear → (run cap key (some view)).Ends site o after →
        (o = .aborted → view.schedule.Outreaches site.clock) ∧
          (view.schedule.spec.suspend = false →
            (∀ d deadline, judge cap view.settled site.clock ≠ .decided d deadline) →
            (∃ e, o = .failed e ∧ after.records.head? = some ⟨key, .statusFailed e⟩) ∨
              (view.schedule.Outreaches site.clock ∧ o = .aborted) ∨
              ¬view.schedule.Outreaches site.clock ∧ o = .finished .done ∧
                (∀ (q : WorkQueue Key) (t : Nat), q.settleOutcome t key o = q.forget key) ∧
                ∃ n, after.records.head? = some ⟨key, n⟩ ∧
                  (n.reason = "InvalidSchedule" ∨ n.reason = "TooManyMissedRuns")) := by
  refine ⟨parse_eq_overlong_iff text, ?_, ?_, ?_⟩
  · intro field part b hpart
    obtain ⟨-, hhi, -⟩ := hpart.bounds
    have hfield := highest_le field
    exact ⟨by omega, hpart.parsePart_eq⟩
  · intro e hparse
    refine ⟨fun t ht => Expr.nextAfter_eq_beyond_iff hparse ht, ?_⟩
    exact fun cap last now deadline hlast hnow => Expr.decision_eq_beyond_iff hlast hnow hparse
  · rintro cap key view site after past o - hc ⟨t, ht, hview⟩ hlast hnow h
    have haborted : judge cap view.settled site.clock = .aborted ↔ view.schedule.Outreaches site.clock :=
      judge_eq_aborted_iff hlast hnow
    obtain ⟨e, rfl, hnote⟩ | ⟨hsuspend, rfl⟩ | ⟨hrun, hends⟩ := run_verdict hc ht hview h
    · exact ⟨nofun, fun _ _ => .inl ⟨e, rfl, hnote⟩⟩
    · exact ⟨nofun, fun hrun => by simp [hrun] at hsuspend⟩
    · cases hjudge : judge cap view.settled site.clock with
      | aborted =>
        rw [hjudge] at hends
        have hover := haborted.1 hjudge
        exact ⟨fun _ => hover, fun _ _ => .inr (.inl ⟨hover, hends⟩)⟩
      | refused n =>
        rw [hjudge] at hends haborted
        obtain ⟨rfl, hnote⟩ := hends
        refine ⟨nofun, fun _ _ => .inr (.inr ⟨fun hover => ?_, rfl, fun q t => rfl, n, hnote, ?_⟩)⟩
        · exact absurd (haborted.2 hover) nofun
        · exact reason_of_refused hjudge
      | decided d deadline =>
        rw [hjudge] at hends
        exact ⟨fun h => absurd h hends, fun _ hnone => absurd rfl (hnone d deadline)⟩

/-- A schedule with this text as it is stored first. -/
def declared (text : String) : Schedule :=
  { Schedule.minutely with
    metadata := { Schedule.minutely.metadata with uid := .ofNat 1, version := 1, created := .ofSecond 0 }
    spec := { Schedule.minutely.spec with schedule := text } }

/-- A minute and a half after the schedule is stored. -/
def declaredAt (text : String) : Site :=
  ⟨Store.empty.serve (.createSchedule ⟨.ofNat 1, .ofSecond 0⟩ (declared text)), .ofSecond 90, []⟩

def passOver (text : String) : Outcome × Site × Nat :=
  (run 100 (declared text).metadata.key (some ⟨declared text, []⟩)).run (fun n => .ofNat (n + 2))
    (declaredAt text) 0

/-- A misspelt descriptor ends the pass with a notice; ten minutes lead nowhere near the end of the calendar. -/
theorem run_within_limits_misspelt :
    (passOver "@evry 1m").1 = .finished .done ∧
      (∃ n, (passOver "@evry 1m").2.1.records.head? = some ⟨(declared "@evry 1m").metadata.key, n⟩ ∧
        (n.reason = "InvalidSchedule" ∨ n.reason = "TooManyMissedRuns")) ∧
      ∃ e, Expr.parse "@every 10m" = .ok e ∧ (Instant.ofSecond 90).InFourDigitYear ∧
        (e.nextAfter (.ofSecond 90) = .beyond ↔
          ∃ n, AsksEvery "@every 10m" n ∧ Expr.Leaves n (.ofSecond 90)) := by
  have hyear : ∀ second ∈ [0, 90], (Instant.ofSecond second).InFourDigitYear := by
    unfold Instant.InFourDigitYear
    decide +kernel
  have hc : Chronicle [(declaredAt "@evry 1m").store, .empty] :=
    (Served.serve (.createSchedule _ _) .start).chronicle
  have hstored : .schedule (declared "@evry 1m") ∈ (declaredAt "@evry 1m").store.objects := by
    rw [Listing.mem_schedule]
    decide +kernel
  have hparse : ∃ e, Expr.parse "@every 10m" = .ok e := ⟨⟨"@every 10m", 0, .every 600⟩, by decide +kernel⟩
  obtain ⟨e, he⟩ := hparse
  have hread := ((run_within_limits "@every 10m").2.2.1 e he).1 (.ofSecond 90) (hyear 90 (by simp))
  have hends : (run 100 (declared "@evry 1m").metadata.key (some ⟨declared "@evry 1m", []⟩)).Ends
      (declaredAt "@evry 1m") (passOver "@evry 1m").1 (passOver "@evry 1m").2.1 :=
    ⟨fun n => .ofNat (n + 2), 0, _, rfl⟩
  have hpass := ((run_within_limits "@evry 1m").2.2.2 100 _ ⟨declared "@evry 1m", []⟩
    (declaredAt "@evry 1m") (passOver "@evry 1m").2.1 [.empty] (passOver "@evry 1m").1 rfl hc
    ⟨_, List.mem_cons_self, hstored⟩ (hyear 0 (by simp)) (hyear 90 (by simp)) hends).2 rfl
  have hdone : (passOver "@evry 1m").1 = .finished .done := by decide +kernel
  have hundecided : ∀ d deadline, judge 100 (declared "@evry 1m") (.ofSecond 90) ≠ .decided d deadline := by
    intro d deadline h
    obtain ⟨e, hparse, -⟩ := judge_eq_decided_iff.1 h
    have hfail : Expr.parse "@evry 1m" = .error (.unknownDescriptor "@evry 1m") := by decide +kernel
    exact absurd (hfail.symm.trans hparse) nofun
  obtain ⟨e', hfailed, -⟩ | ⟨-, haborted⟩ | ⟨-, -, -, hnotice⟩ := hpass hundecided
  · exact absurd (hdone.symm.trans hfailed) nofun
  · exact absurd (hdone.symm.trans haborted) nofun
  · exact ⟨hdone, hnotice, e, he, hyear 90 (by simp), hread⟩

/-- A period too long for a span, a stride too long for a word and a period that leads past the end of the calendar
abort the pass, which is tried again. -/
theorem run_outreaches :
    Expr.parse "@every 9223372036854776s" = .error .overlongPeriod ∧
      Expr.parse "5/4294967295 * * * *" = .error .overlongPeriod ∧
      (∃ e, Expr.parse "@every 9000000000000s" = .ok e ∧ e.nextAfter (.ofSecond 90) = .beyond ∧
        e.decision 100 (.ofSecond 0) none (.ofSecond 90) = .error .beyondCalendar) ∧
      ∀ text ∈ ["@every 9223372036854776s", "5/4294967295 * * * *", "@every 9000000000000s"],
        (passOver text).1 = .aborted ∧ ∀ (q : WorkQueue Key) (t : Nat) (key : Key),
          q.settleOutcome t key (passOver text).1 = (q.addRateLimited t key).1 := by
  have haborted : ∀ text ∈ ["@every 9223372036854776s", "5/4294967295 * * * *", "@every 9000000000000s"],
      (passOver text).1 = .aborted := by decide +kernel
  refine ⟨by decide +kernel, by decide +kernel, ⟨⟨"@every 9000000000000s", 0, .every 9000000000000⟩,
    by decide +kernel, by decide +kernel, by decide +kernel⟩, ?_⟩
  intro text htext
  rw [haborted text htext]
  exact ⟨rfl, fun q t key => rfl⟩

end Pass

end Timetable
