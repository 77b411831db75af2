import Mathlib.Data.Int.LeastGreatest
import Timetable.Proofs.Cron.NextFire
import Timetable.Proofs.Cron.Walk

/-!
# The latest missed fire

For five fields the fires met on the way to the present are all the fires there are, as long as no gap between
two of them is longer than the horizon of a search. A decision then names the latest of them and the first one to
come.
-/

namespace Timetable.Cron

/-- A deadline that is not negative moves the start up to the deadline before now. -/
lemma earliest_eq {last now : Instant} {deadline : Option Int}
    (h : ∀ d, deadline = some d → 0 ≤ d) :
    earliest last deadline now = (deadline.bind fun d => now.add? (-d)).elim last (max last) := by
  unfold earliest
  cases deadline with
  | none => rfl
  | some d =>
    rw [Option.bind_some, Option.bind_some, max_eq_left (h d rfl)]
    cases now.add? (-d) with
    | none => rfl
    | some t =>
      dsimp only [Option.elim]
      split_ifs with hlt
      · exact (max_eq_right hlt.le).symm
      · exact (max_eq_left (not_lt.1 hlt)).symm

lemma earliest_representable {last now : Instant} {deadline : Option Int}
    (hlast : last.Representable) : (earliest last deadline now).Representable := by
  unfold earliest
  cases hd : deadline.bind fun d => now.add? (-(max d 0)) with
  | none => exact hlast
  | some t =>
    obtain ⟨d, -, ht⟩ := Option.bind_eq_some_iff.1 hd
    dsimp only
    split_ifs
    · exact Instant.representable_of_add? ht
    · exact hlast

namespace Fields
variable {f : Fields} {zone : Int} {start now p u : Instant}

/-- Each fire up to now lies within the horizon of a search from the fire before it, the first one within that of
a search from the start. -/
def Gapless (f : Fields) (zone : Int) (start now : Instant) : Prop :=
  ∀ p u, p = start ∨ p ∈ f.fires zone → start ≤ p → IsLeast (f.fires zone ∩ Set.Ioi p) u →
    u ≤ now → localYear zone u ≤ horizon zone p

lemma Gapless.of_year (h : localYear zone now ≤ horizon zone start) : f.Gapless zone start now := by
  intro p u _ hp _ hu
  exact (localYear_mono hu).trans (h.trans (horizon_mono hp))

lemma exists_isLeast_fires (hu : u ∈ f.fires zone) (hp : p < u) :
    ∃ v, IsLeast (f.fires zone ∩ Set.Ioi p) v := by
  obtain ⟨hu', m, hm, hin, rfl⟩ := hu
  obtain ⟨m', hm', hleast⟩ := Int.exists_least_of_bdd
    (P := fun m => minuteStart zone m ∈ f.fires zone ∩ Set.Ioi p)
    ⟨minuteAfter zone p, fun m hm => lt_minuteStart_iff.1 hm.2⟩ ⟨m, ⟨hu', m, hm, hin, rfl⟩, hp⟩
  refine ⟨minuteStart zone m', hm', ?_⟩
  rintro v ⟨⟨hv, k, hk, hkin, rfl⟩, hkp⟩
  exact minuteStart_le_iff.2 (hleast k ⟨⟨hv, k, hk, hkin, rfl⟩, hkp⟩)

lemma isLeast_coming_iff :
    IsLeast (f.coming zone p) u ↔
      IsLeast (f.fires zone ∩ Set.Ioi p) u ∧ localYear zone u ≤ horizon zone p := by
  constructor
  · rintro ⟨⟨hu, hlt, hyear⟩, hleast⟩
    refine ⟨⟨⟨hu, hlt⟩, ?_⟩, hyear⟩
    rintro v ⟨hv, hv'⟩
    by_contra hlate
    have hle : v ≤ u := (not_le.1 hlate).le
    exact hlate (hleast ⟨hv, hv', (localYear_mono hle).trans hyear⟩)
  · rintro ⟨⟨⟨hu, hlt⟩, hleast⟩, hyear⟩
    exact ⟨⟨hu, hlt, hyear⟩, fun v hv => hleast ⟨hv.1, hv.2.1⟩⟩

/-- The fires after the start and up to now. -/
def missed (f : Fields) (zone : Int) (start now : Instant) : Set Instant :=
  f.fires zone ∩ Set.Ioc start now

lemma missed_eq_empty (h : now ≤ start) : f.missed zone start now = ∅ := by
  rw [missed, Set.Ioc_eq_empty h.not_gt, Set.inter_empty]

lemma nano_of_fires (h : u ∈ f.fires zone) : u.nano = 0 := by
  obtain ⟨-, m, -, -, rfl⟩ := h
  rfl

end Fields

namespace Expr
variable {e : Expr} {f : Fields} (he : e.Steps) (hplan : e.plan = .fields f)
  {start now p u : Instant}
include hplan

lemma fires_of_meets (h : e.Meets start u) : u ∈ f.fires e.zone := by
  cases h with
  | first h =>
    rw [nextAfter_fields hplan] at h
    exact (Fields.isLeast_coming_of_nextAfter h).1.1
  | next _ h =>
    rw [nextAfter_fields hplan] at h
    exact (Fields.isLeast_coming_of_nextAfter h).1.1

include he in
lemma met_subset_missed : e.met start now ⊆ f.missed e.zone start now := by
  rintro u ⟨hu, hle⟩
  exact ⟨fires_of_meets hplan hu, lt_of_meets he hu, hle⟩

section
variable (hrep : start.Representable) (hgap : f.Gapless e.zone start now)
  (hwhole : e.Unbroken start now)
include he hrep hgap hwhole

/-- The walk does not pass a fire by. -/
lemma exists_nextAfter_le (hp : p = start ∨ e.Meets start p) (hu : u ∈ f.fires e.zone)
    (hlt : p < u) (hle : u ≤ now) : ∃ v, e.nextAfter p = .at v ∧ v ≤ u := by
  obtain ⟨v, hv⟩ := Fields.exists_isLeast_fires hu hlt
  have hvu : v ≤ u := hv.2 ⟨hu, hlt⟩
  have hfire : p = start ∨ p ∈ f.fires e.zone := hp.imp_right (fires_of_meets hplan)
  have hstart : start ≤ p := le_of_reached he hp
  have hprep : p.Representable := by
    obtain rfl | hp := hfire
    · exact hrep
    · exact hp.1
  have hyear := hgap p v hfire hstart hv (hvu.trans hle)
  have hne := hwhole p hp (hlt.le.trans hle)
  rw [nextAfter_fields hplan] at hne ⊢
  exact ⟨v, (Fields.nextAfter_eq_at_iff hprep hne).2 (Fields.isLeast_coming_iff.2 ⟨hv, hyear⟩), hvu⟩

lemma meets_of_lt {p : Instant} (hp : p = start ∨ e.Meets start p) (hu : u ∈ f.fires e.zone)
    (hlt : p < u) (hle : u ≤ now) : e.Meets start u := by
  obtain ⟨v, hv, hvu⟩ := exists_nextAfter_le he hplan hrep hgap hwhole hp hu hlt hle
  have hmeets : e.Meets start v := by
    obtain rfl | hp := hp
    · exact .first hv
    · exact .next hp hv
  obtain rfl | hvu := hvu.eq_or_lt
  · exact hmeets
  · -- fires are whole seconds, so that fewer are left on the way to `u`
    have hcloser : (u.second - v.second).toNat < (u.second - p.second).toNat := by
      obtain ⟨hpv, hnano⟩ := nextAfter_later he hv
      rw [Instant.lt_def, hnano] at hpv
      rw [Instant.lt_def, hnano] at hvu
      omega
    exact meets_of_lt (.inr hmeets) hu hvu hle
termination_by (u.second - p.second).toNat

/-- The fires that are met are all the fires there are. -/
theorem met_eq_missed : e.met start now = f.missed e.zone start now := by
  refine (met_subset_missed he hplan).antisymm fun u hu => ?_
  exact ⟨meets_of_lt he hplan hrep hgap hwhole (.inl rfl) hu.1 hu.2.1 hu.2.2, hu.2.2⟩

end

include he in
lemma near_end_of_broken (h : ¬e.Unbroken start now ∨ e.nextAfter now = .beyond) :
    localYear e.zone (min start now) < Date.firstYear ∨ Date.lastYear < horizon e.zone now := by
  have hnear : ∀ p, start ≤ p ∨ p = now → p ≤ now → e.nextAfter p = .beyond →
      localYear e.zone (min start now) < Date.firstYear ∨
        Date.lastYear < horizon e.zone now := by
    intro p hp hle hbeyond
    have hmin : min start now ≤ p := min_le_iff.2 (hp.imp_right Eq.ge)
    rw [nextAfter_fields hplan] at hbeyond
    apply (Fields.near_end_of_nextAfter hbeyond).imp
    · exact (localYear_mono hmin).trans_lt
    · exact fun h => h.trans_le (horizon_mono hle)
  obtain hbroken | hbeyond := h
  · unfold Unbroken at hbroken
    push Not at hbroken
    obtain ⟨p, hp, hle, hbeyond⟩ := hbroken
    exact hnear p (.inl (le_of_reached he hp)) hle hbeyond
  · exact hnear now (.inr rfl) le_rfl hbeyond

section
variable (hrep : start.Representable) (hnow : now.Representable)
  (hgap : f.Gapless e.zone start now) (cap : Nat) {last : Instant} {deadline : Option Int}
  (hstart : earliest last deadline now = start)
include he hrep hnow hgap hstart

/-- What a decision says about the fires of five fields. -/
theorem decision_fields_cases :
    (e.decision cap last deadline now = .error .beyondCalendar ∧
        (localYear e.zone (min start now) < Date.firstYear ∨
          Date.lastYear < horizon e.zone now)) ∨
      (e.decision cap last deadline now = .error (.tooManyMissed cap) ∧
        cap < (f.missed e.zone start now).encard) ∨
      (f.missed e.zone start now).encard ≤ cap ∧
        (f.coming e.zone now = ∅ ∧
            e.decision cap last deadline now = .error (.unsatisfiable e.source) ∨
          ∃ m u, IsLast (f.missed e.zone start now) m ∧ IsLeast (f.coming e.zone now) u ∧
            e.decision cap last deadline now = .ok ⟨m, u⟩) := by
  obtain ⟨hr, hbroken⟩ | ⟨hr, hcount⟩ | ⟨hcount, hwhole, hend⟩ := decision_cases he cap hstart
  · exact .inl ⟨hr, near_end_of_broken he hplan hbroken⟩
  · exact .inr (.inl ⟨hr, hcount.trans_le (Set.encard_le_encard (met_subset_missed he hplan))⟩)
  · rw [met_eq_missed he hplan hrep hgap hwhole] at hcount hend
    rw [nextAfter_fields hplan] at hend
    refine .inr (.inr ⟨hcount, ?_⟩)
    obtain ⟨hnever, hr⟩ | ⟨m, u, hm, hu, hr⟩ := hend
    · exact .inl ⟨Fields.coming_eq_empty_of_nextAfter hnow hnever, hr⟩
    · exact .inr ⟨m, u, hm, Fields.isLeast_coming_of_nextAfter hu, hr⟩

end

/-- A decision for five fields names the latest fire that was missed and the first one to come. It does not if too
many fires were missed or none comes within the horizon of a search, and it is aborted near the ends of the
calendar only. -/
theorem decision_latest_missed {text : String} (hparse : Expr.parse text = .ok e) (cap : Nat)
    {last : Instant} {deadline : Option Int} (hlast : last.Representable)
    (hnow : now.Representable) (hdeadline : ∀ d, deadline = some d → 0 ≤ d)
    (hstart : start = (deadline.bind fun d => now.add? (-d)).elim last (max last))
    (hgap : f.Gapless e.zone start now) :
    (e.decision cap last deadline now = .error .beyondCalendar →
        localYear e.zone (min start now) < Date.firstYear ∨
          Date.lastYear < horizon e.zone now) ∧
      (e.decision cap last deadline now ≠ .error .beyondCalendar →
        (e.decision cap last deadline now = .error (.tooManyMissed cap) ↔
            cap < (f.missed e.zone start now).encard) ∧
          (e.decision cap last deadline now = .error (.unsatisfiable e.source) ↔
            (f.missed e.zone start now).encard ≤ cap ∧ f.coming e.zone now = ∅) ∧
          ∀ d, e.decision cap last deadline now = .ok d ↔
            (f.missed e.zone start now).encard ≤ cap ∧
              IsLast (f.missed e.zone start now) d.missed ∧
              IsLeast (f.coming e.zone now) d.next) ∧
      ∀ d, e.decision cap last deadline now = .ok d →
        (now < start → d.missed = none) ∧ IsLeast (f.fires e.zone ∩ Set.Ioi now) d.next ∧
          (¬(now.isLeap ∧ d.next.second = now.second + 1 ∧ d.next.second % 86400 = 0) →
            (d.waitFrom now : Int) = d.next.since now ∧ 0 < d.waitFrom now) := by
  have he : e.Steps := steps_of_parse hparse
  rw [← earliest_eq hdeadline] at hstart
  have hrep : start.Representable := hstart ▸ earliest_representable hlast
  have hcases := decision_fields_cases he hplan hrep hnow hgap cap hstart.symm
  refine ⟨?_, ?_, ?_⟩
  · intro h
    obtain ⟨-, hnear⟩ | ⟨hr, -⟩ | ⟨-, ⟨-, hr⟩ | ⟨m, u, -, -, hr⟩⟩ := hcases
    · exact hnear
    · simp [hr] at h
    · simp [hr] at h
    · simp [hr] at h
  · intro h
    obtain ⟨hr, -⟩ | ⟨hr, hcount⟩ | ⟨hcount, ⟨hnone, hr⟩ | ⟨m, u, hm, hu, hr⟩⟩ := hcases
    · exact absurd hr h
    · simp [hr, hcount, hcount.not_ge]
    · have hlate : ∀ u, ¬IsLeast (f.coming e.zone now) u := fun u hu => by simpa [hnone] using hu.1
      exact ⟨by simp [hr, hcount], by simp [hr, hcount, hnone], fun d => by simp [hr, hlate]⟩
    · have hsome : f.coming e.zone now ≠ ∅ := Set.nonempty_iff_ne_empty.1 ⟨u, hu.1⟩
      refine ⟨by simp [hr, hcount], by simp [hr, hsome], fun d => ?_⟩
      rw [hr]
      constructor
      · intro h
        obtain rfl := Except.ok.inj h
        exact ⟨hcount, hm, hu⟩
      · rintro ⟨-, hm', hu'⟩
        rw [hm.unique hm', hu.unique hu']
  · intro d hd
    obtain ⟨hr, -⟩ | ⟨hr, -⟩ | ⟨-, ⟨-, hr⟩ | ⟨m, u, hm, hu, hr⟩⟩ := hcases
    · simp [hr] at hd
    · simp [hr] at hd
    · simp [hr] at hd
    · obtain rfl := Except.ok.inj (hr.symm.trans hd)
      have hnext := (Fields.isLeast_coming_iff.1 hu).1
      refine ⟨fun hlt => ?_, hnext, fun hleap => ?_⟩
      · exact hm.unique (Fields.missed_eq_empty hlt.le)
      · have hpos : 0 < u.since now :=
          (Instant.since_pos_iff hnext.1.2 (Fields.nano_of_fires hnext.1.1)).2 hleap
        have hwait : (Decision.waitFrom ⟨m, u⟩ now : Int) = u.since now :=
          Int.toNat_of_nonneg hpos.le
        exact ⟨hwait, by omega⟩

end Expr

def workdayFields : Fields :=
  ⟨⟨[30], false⟩, ⟨[9], false⟩, ⟨List.range' 1 31, true⟩, ⟨List.range' 1 12, true⟩,
    ⟨[1, 2, 3, 4, 5], false⟩⟩

/-- Half past nine on workdays, three hours west of UTC. -/
def workdays : Expr :=
  ⟨"CRON_TZ=-03:00 30 9 * * MON-FRI", -10800, .fields workdayFields⟩

/-- From Monday to Monday with a deadline of four days: one fire was missed on Thursday and one on Friday, and
the next one is half an hour away. -/
theorem Expr.decision_latest_missed_workdays :
    ∃ last now start m u : Instant, Expr.parse "CRON_TZ=-03:00 30 9 * * MON-FRI" = .ok workdays ∧
      start = ((some 345600000000000).bind fun d => now.add? (-d)).elim last (max last) ∧
      last < start ∧ workdayFields.Gapless workdays.zone start now ∧
      workdays.decision 1 last (some 345600000000000) now = .error (.tooManyMissed 1) ∧
      1 < (workdayFields.missed workdays.zone start now).encard ∧
      workdays.decision 2 last (some 345600000000000) now = .ok ⟨some m, u⟩ ∧
      IsGreatest (workdayFields.missed workdays.zone start now) m ∧
      IsLeast (workdayFields.fires workdays.zone ∩ Set.Ioi now) u ∧
      (Decision.waitFrom ⟨some m, u⟩ now : Int) = u.since now ∧ u.since now = 1800000000000 := by
  let last := Instant.ofSecond 1708905600
  let now := Instant.ofSecond 1709553600
  let start := Instant.ofSecond 1709208000
  let d : Decision := ⟨some (.ofSecond 1709296200), .ofSecond 1709555400⟩
  have hparse : Expr.parse "CRON_TZ=-03:00 30 9 * * MON-FRI" = .ok workdays := by decide +kernel
  have hlast : last.Representable := by decide +kernel
  have hnow : now.Representable := by decide +kernel
  have hdeadline : ∀ d : Int, some 345600000000000 = some d → 0 ≤ d := by
    intro d hd
    rw [← Option.some.inj hd]
    decide
  have hstart : start =
      ((some 345600000000000).bind fun d => now.add? (-d)).elim last (max last) := by
    decide +kernel
  have hgap : workdayFields.Gapless workdays.zone start now :=
    .of_year (by decide +kernel)
  have hmany : workdays.decision 1 last (some 345600000000000) now = .error (.tooManyMissed 1) := by
    decide +kernel
  have hd : workdays.decision 2 last (some 345600000000000) now = .ok d := by decide +kernel
  obtain ⟨-, hone, -⟩ := Expr.decision_latest_missed rfl hparse 1 hlast hnow hdeadline hstart hgap
  have hcount := (hone (by simp [hmany])).1.1 hmany
  obtain ⟨-, htwo, hall⟩ :=
    Expr.decision_latest_missed rfl hparse 2 hlast hnow hdeadline hstart hgap
  obtain ⟨-, hm, -⟩ := ((htwo (by simp [hd])).2.2 d).1 hd
  obtain ⟨-, hu, hwait⟩ := hall d hd
  exact ⟨last, now, start, _, _, hparse, hstart, by decide, hgap, hmany, by simpa using hcount, hd, hm,
    hu, (hwait (by decide)).1, by decide⟩

def everyMinute : Expr :=
  ⟨"* * * * *", 0, .fields ⟨⟨List.range 60, true⟩, ⟨List.range 24, true⟩, ⟨List.range' 1 31, true⟩,
    ⟨List.range' 1 12, true⟩, ⟨List.range 7, true⟩⟩⟩

/-- Half a second before the end of 2016 the next fire is ahead, but the clock difference to it is negative, and
the wait is zero. Half a minute before the end of the calendar there is no decision at all. -/
theorem Expr.decision_waits_zero :
    ∃ (f : Fields) (start now : Instant) (d : Decision), Expr.parse "* * * * *" = .ok everyMinute ∧
      everyMinute.plan = .fields f ∧ f.Gapless everyMinute.zone start now ∧
      everyMinute.decision 100 start none now = .ok d ∧ now < d.next ∧
      d.next.since now = -500000000 ∧ d.waitFrom now = 0 ∧
      ∃ late : Instant, late.Representable ∧ f.Gapless everyMinute.zone late late ∧
        everyMinute.decision 100 late none late = .error .beyondCalendar := by
  let start : Instant := ⟨1483228799, 1000000000, by decide⟩
  let now : Instant := ⟨1483228799, 1500000000, by decide⟩
  let late : Instant := .ofSecond 8210266876770
  have hparse : Expr.parse "* * * * *" = .ok everyMinute := by decide +kernel
  have hd : everyMinute.decision 100 start none now = .ok ⟨none, .ofSecond 1483228800⟩ := by
    decide +kernel
  have hlate : late.Representable := by decide +kernel
  have hend : everyMinute.decision 100 late none late = .error .beyondCalendar := by decide +kernel
  exact ⟨_, start, now, _, hparse, rfl, .of_year (by decide +kernel), hd, by decide, by decide,
    by decide, late, hlate, .of_year (by decide +kernel), hend⟩

end Timetable.Cron
