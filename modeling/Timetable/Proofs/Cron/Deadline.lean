import Timetable.Proofs.Cron.MissedFires
import Timetable.Proofs.Cron.Periods

/-!
# A starting deadline filters the missed fire

With a deadline the walk starts later. For five fields it meets the same fires from there on, so that the deadline
only takes away a missed fire that is too old. An exception are fires that a walk from the last launch does not
reach, because they lie past the horizon of its last search. A period is counted from where the walk starts.
-/

namespace Timetable.Cron

namespace IsLast
variable {s : Set Instant} {m : Option Instant} (h : IsLast s m)
include h

lemma exists_eq_some (hs : s.Nonempty) : ∃ a, m = some a := by
  cases m with
  | none => exact absurd h hs.ne_empty
  | some a => exact ⟨a, rfl⟩

lemma inter_Ioi_eq_empty {c : Instant} (hm : ∀ a, m = some a → a ≤ c) : s ∩ Set.Ioi c = ∅ := by
  refine Set.eq_empty_of_forall_notMem fun u hu => ?_
  obtain ⟨a, rfl⟩ := h.exists_eq_some ⟨u, hu.1⟩
  exact hu.2.not_ge ((h.2 hu.1).trans (hm a rfl))

/-- The last element of a set is also the last one after a bound, or there is none after it. -/
lemma inter_Ioi (c : Instant) : IsLast (s ∩ Set.Ioi c) (m.filter (c < ·)) := by
  by_cases hm : ∀ a, m = some a → a ≤ c
  · have hnone : m.filter (c < ·) = none := by
      refine Option.filter_eq_none_iff.2 fun a ha => ?_
      simpa using hm a ha
    rw [hnone]
    exact h.inter_Ioi_eq_empty hm
  · push Not at hm
    obtain ⟨a, rfl, hlt⟩ := hm
    rw [Option.filter_some_pos (by simpa using hlt)]
    exact ⟨⟨h.1, hlt⟩, fun u hu => h.2 hu.1⟩

end IsLast

namespace Expr
variable {e : Expr} {f : Fields} {start last now h m u : Instant} {cap : Nat} {span : Int}
  {d : Decision}

/-- The next fire is the same whatever the deadline. -/
lemma next_eq_of_decision (he : e.Steps) {deadline deadline' : Option Int} {d' : Decision}
    (hd : e.decision cap last deadline now = .ok d)
    (hd' : e.decision cap last deadline' now = .ok d') : d'.next = d.next := by
  obtain ⟨-, -, -, hnext⟩ := (decision_eq_ok_iff he cap rfl).1 hd
  obtain ⟨-, -, -, hnext'⟩ := (decision_eq_ok_iff he cap rfl).1 hd'
  exact Upcoming.at.inj (hnext'.symm.trans hnext)

lemma earliest_some (hspan : 0 ≤ span) :
    earliest last (some span) now = (now.add? (-span)).elim last (max last) := by
  refine earliest_eq fun d hd => ?_
  rwa [← Option.some.inj hd]

lemma earliest_of_le (hspan : 0 ≤ span) (hdead : now.add? (-span) = some h) (hle : h ≤ last) :
    earliest last (some span) now = last := by
  rw [earliest_some hspan, hdead]
  exact max_eq_left hle

lemma earliest_of_lt (hspan : 0 ≤ span) (hdead : now.add? (-span) = some h) (hlt : last < h) :
    earliest last (some span) now = h := by
  rw [earliest_some hspan, hdead]
  exact max_eq_right hlt.le

section
variable (he : e.Steps) (hspan : 0 ≤ span) (hdead : now.add? (-span) = some h)
  (hd : e.decision cap last none now = .ok d)
include he hspan hdead hd

/-- A deadline before the last launch bounds nothing. -/
lemma decision_of_deadline_le (hle : h ≤ last) :
    e.decision cap last (some span) now = .ok ⟨d.missed.filter (h < ·), d.next⟩ := by
  have hkeep : d.missed.filter (h < ·) = d.missed := by
    cases hm : d.missed with
    | none => rfl
    | some m =>
      have hlater := (decision_missed_later he hd hm).1
      exact Option.filter_some_pos (by simpa using hle.trans_lt hlater)
  have hmade := (decision_eq_ok_iff he cap rfl).1 hd
  rw [hkeep]
  exact (decision_eq_ok_iff he cap (earliest_of_le hspan hdead hle)).2 hmade

/-- The deadline filters where the fires met after it are those met after the last launch. -/
lemma decision_of_met_eq (hlt : last < h) (hwhole : e.Unbroken h now)
    (hmet : e.met h now = e.met last now ∩ Set.Ioi h) :
    e.decision cap last (some span) now = .ok ⟨d.missed.filter (h < ·), d.next⟩ := by
  have hstart : earliest last (some span) now = h := earliest_of_lt hspan hdead hlt
  obtain ⟨hcount, -, hm, hnext⟩ := (decision_eq_ok_iff he cap rfl).1 hd
  refine (decision_eq_ok_iff he cap hstart).2 ⟨?_, hwhole, ?_, hnext⟩
  · rw [hmet]
    exact (Set.encard_le_encard Set.inter_subset_left).trans hcount
  · rw [hmet]
    exact hm.inter_Ioi h

end

/-! ## Fields -/

section
variable (hplan : e.plan = .fields f)
include hplan

lemma nextAfter_eq_of_lt {p : Instant} (hn : e.nextAfter p = .at u) (hle : p ≤ h) (hlt : h < u) :
    e.nextAfter h = .at u := by
  rw [nextAfter_fields hplan] at hn ⊢
  exact Fields.nextAfter_eq_of_lt hn hle hlt

/-- The fires that are met after a later start are met from there too. -/
lemma meets_of_le (hle : start ≤ h) (hu : e.Meets start u) (hlt : h < u) :
    e.Meets h u := by
  induction hu with
  | first hn => exact .first (nextAfter_eq_of_lt hplan hn hle hlt)
  | @next p u _ hn ih =>
    obtain hp | hp := lt_or_ge h p
    · exact .next (ih hp) hn
    · exact .first (nextAfter_eq_of_lt hplan hn hp hlt)

/-- If one is met at all, the first of them is where a walk from the later start goes. -/
lemma exists_meets_of_le (hle : start ≤ h) (hm : e.Meets start m) (hlt : h < m) :
    ∃ u, e.nextAfter h = .at u ∧ e.Meets start u := by
  induction hm with
  | first hn => exact ⟨_, nextAfter_eq_of_lt hplan hn hle hlt, .first hn⟩
  | @next p m hp hn ih =>
    obtain hlt' | hle' := lt_or_ge h p
    · exact ih hlt'
    · exact ⟨m, nextAfter_eq_of_lt hplan hn hle' hlt, .next hp hn⟩

lemma met_eq_inter_Ioi (he : e.Steps) (hle : start ≤ h) (hm : e.Meets start m) (hlt : h < m) :
    e.met h now = e.met start now ∩ Set.Ioi h := by
  obtain ⟨t, ht, hstart⟩ := exists_meets_of_le hplan hle hm hlt
  have hback : ∀ u, e.Meets h u → e.Meets start u := by
    intro u hu
    induction hu with
    | first hn => exact Upcoming.at.inj (ht.symm.trans hn) ▸ hstart
    | next _ hn ih => exact .next ih hn
  ext u
  constructor
  · rintro ⟨hu, hle'⟩
    exact ⟨⟨hback u hu, hle'⟩, lt_of_meets he hu⟩
  · rintro ⟨⟨hu, hle'⟩, hlt'⟩
    exact ⟨meets_of_le hplan hle hu hlt', hle'⟩

lemma met_nonempty (hrep : h.Representable) (hwhole : e.Unbroken h now) (hu : u ∈ f.coming e.zone h)
    (hle : u ≤ now) : (e.met h now).Nonempty := by
  have hne := hwhole h (.inl rfl) (hu.2.1.le.trans hle)
  rw [nextAfter_fields hplan] at hne
  cases hn : f.nextAfter e.zone h with
  | beyond => exact absurd hn hne
  | never =>
    rw [Fields.coming_eq_empty_of_nextAfter hrep hn] at hu
    exact hu.elim
  | «at» v =>
    have hvu : v ≤ u := (Fields.isLeast_coming_of_nextAfter hn).2 hu
    exact ⟨v, .first ((nextAfter_fields hplan h).trans hn), hvu.trans hle⟩

lemma unbroken_of_le (he : e.Steps) (hle : start ≤ h) (hwhole : e.Unbroken start now)
    (hnext : e.nextAfter now = .at u) : e.Unbroken h now := by
  intro p hp hle'
  have hstart : start ≤ p := hle.trans (le_of_reached he hp)
  have hne := hwhole start (.inl rfl) (hstart.trans hle')
  rw [nextAfter_fields hplan] at hne hnext ⊢
  exact Fields.nextAfter_ne_beyond_of_le hne hnext hstart hle'

section
variable (he : e.Steps) (hspan : 0 ≤ span) (hdead : now.add? (-span) = some h)
  (hd : e.decision cap last none now = .ok d)
include he hspan hdead hd

/-- For fields the deadline filters exactly where it uncovers no fire that a walk from the last launch has not
reached. -/
theorem decision_deadline_fields_iff :
    e.decision cap last (some span) now = .ok ⟨d.missed.filter (h < ·), d.next⟩ ↔
      h ≤ last ∨ ((∃ u ∈ f.coming e.zone h, u ≤ now) → ∃ m, d.missed = some m ∧ h < m) := by
  obtain hle | hlt := le_or_gt h last
  · exact ⟨fun _ => .inl hle, fun _ => decision_of_deadline_le he hspan hdead hd hle⟩
  have hstart : earliest last (some span) now = h := earliest_of_lt hspan hdead hlt
  have hrep : h.Representable := Instant.representable_of_add? hdead
  obtain ⟨-, hwhole, hlast, hnext⟩ := (decision_eq_ok_iff he cap rfl).1 hd
  have hwhole' : e.Unbroken h now := unbroken_of_le hplan he hlt.le hwhole hnext
  constructor
  · intro hd'
    refine .inr ?_
    rintro ⟨u, hu, hle⟩
    obtain ⟨-, -, hlast', -⟩ := (decision_eq_ok_iff he cap hstart).1 hd'
    obtain ⟨m, hm⟩ := hlast'.exists_eq_some (met_nonempty hplan hrep hwhole' hu hle)
    obtain ⟨hm, hlate⟩ := Option.filter_eq_some_iff.1 hm
    exact ⟨m, hm, by simpa using hlate⟩
  · rintro (hle | hreach)
    · exact absurd hle hlt.not_ge
    refine decision_of_met_eq he hspan hdead hd hlt hwhole' ?_
    by_cases hm : ∃ m, d.missed = some m ∧ h < m
    · obtain ⟨m, hm, hlate⟩ := hm
      rw [hm] at hlast
      exact met_eq_inter_Ioi hplan he hlt.le hlast.1.1 hlate
    · have hstop : ∀ t, e.nextAfter h = .at t → now < t := by
        intro t ht
        rw [nextAfter_fields hplan] at ht
        by_contra hle
        exact hm (hreach ⟨t, (Fields.isLeast_coming_of_nextAfter ht).1, not_lt.1 hle⟩)
      push Not at hm
      exact (met_eq_empty hstop he).trans (hlast.inter_Ioi_eq_empty hm).symm

/-- If no gap between fires is longer than the horizon, it always filters. -/
lemma decision_deadline_of_gapless (hlast : last.Representable)
    (hgap : f.Gapless e.zone last now) :
    e.decision cap last (some span) now = .ok ⟨d.missed.filter (h < ·), d.next⟩ := by
  refine (decision_deadline_fields_iff hplan he hspan hdead hd).2 ?_
  obtain hle | hlt := le_or_gt h last
  · exact .inl hle
  refine .inr ?_
  rintro ⟨u, hu, hle⟩
  obtain ⟨-, hwhole, hmissed, -⟩ := (decision_eq_ok_iff he cap rfl).1 hd
  have hmet : e.met last now = f.missed e.zone last now :=
    met_eq_missed he hplan hlast hgap hwhole
  have hmem : u ∈ e.met last now := by
    rw [hmet]
    exact ⟨hu.1, hlt.trans hu.2.1, hle⟩
  obtain ⟨m, hm⟩ := hmissed.exists_eq_some ⟨u, hmem⟩
  rw [hm] at hmissed
  exact ⟨m, hm, hu.2.1.trans_le (hmissed.2 hmem)⟩

end

end

/-! ## Periods -/

section
variable {period : Nat} (hplan : e.plan = .every period) (he : e.Steps)
  (hlast : last.Representable) (hnow : now.Representable) (hspan : 0 ≤ span)
  (hdead : now.add? (-span) = some h) (hd : e.decision cap last none now = .ok d)
include hplan he hlast hnow hspan hdead hd

/-- With a period there is a decision whatever the deadline. -/
lemma exists_decision_every : ∃ m, e.decision cap last (some span) now = .ok ⟨m, d.next⟩ := by
  obtain hle | hlt := le_or_gt h last
  · exact ⟨_, decision_of_deadline_le he hspan hdead hd hle⟩
  have hstart : earliest last (some span) now = h := earliest_of_lt hspan hdead hlt
  have hrep : h.Representable := Instant.representable_of_add? hdead
  have hperiod : 1 ≤ period := he period hplan
  obtain ⟨hcount, -, -, hnext⟩ := (decision_eq_ok_iff he cap rfl).1 hd
  have hfewer := encard_met_every_le hplan hperiod hlast hrep hlt.le hnow
  obtain ⟨-, hbroken⟩ | ⟨-, hmany⟩ | ⟨-, -, ⟨hnever, -⟩ | ⟨m, u, -, hu, hr⟩⟩ :=
    decision_cases he cap hstart
  · obtain hbroken | hbeyond := hbroken
    · exact absurd (unbroken_every hplan hperiod hrep hnext) hbroken
    · simp [hbeyond] at hnext
  · exact absurd (hfewer.trans hcount) hmany.not_ge
  · simp [hnever] at hnext
  · obtain rfl := Upcoming.at.inj (hu.symm.trans hnext)
    exact ⟨m, hr⟩

/-- The deadline filters if it is whole periods after the last launch, or after the last missed fire. -/
theorem decision_deadline_every
    (hsame : h ≤ last ∨ (period : Int) ∣ h.second - last.second ∨ ∀ m, d.missed = some m → m ≤ h) :
    e.decision cap last (some span) now = .ok ⟨d.missed.filter (h < ·), d.next⟩ := by
  obtain hle | hlt := le_or_gt h last
  · exact decision_of_deadline_le he hspan hdead hd hle
  have hrep : h.Representable := Instant.representable_of_add? hdead
  have hperiod : 1 ≤ period := he period hplan
  obtain ⟨-, -, hmissed, hnext⟩ := (decision_eq_ok_iff he cap rfl).1 hd
  refine decision_of_met_eq he hspan hdead hd hlt (unbroken_every hplan hperiod hrep hnext) ?_
  obtain hle | hdvd | hold := hsame
  · exact absurd hle hlt.not_ge
  · exact met_every_eq_of_dvd hplan hperiod hlast hrep hlt.le hnow hdvd
  · have hnone : e.met last now ∩ Set.Ioi h = ∅ := hmissed.inter_Ioi_eq_empty hold
    rw [hnone]
    exact met_every_eq_empty hplan hperiod hlast hrep hlt.le hnow hnone

end

/-- A starting deadline leaves the next fire as it is and takes a missed fire away if it is too old: for fields
exactly where it uncovers no fire that the walk from the last launch has not reached, for a period wherever
the deadline keeps in step with it. -/
theorem decision_deadline {text : String} (hparse : Expr.parse text = .ok e)
    (hlast : last.Representable) (hnow : now.Representable) (hspan : 0 ≤ span)
    (hdead : now.add? (-span) = some h) (hd : e.decision cap last none now = .ok d) :
    (∀ d', e.decision cap last (some span) now = .ok d' → d'.next = d.next) ∧
      (∀ f, e.plan = .fields f →
        (e.decision cap last (some span) now = .ok ⟨d.missed.filter (h < ·), d.next⟩ ↔
            h ≤ last ∨
              ((∃ u ∈ f.coming e.zone h, u ≤ now) → ∃ m, d.missed = some m ∧ h < m)) ∧
          (f.Gapless e.zone last now →
            e.decision cap last (some span) now = .ok ⟨d.missed.filter (h < ·), d.next⟩)) ∧
      ∀ period, e.plan = .every period →
        (∃ m, e.decision cap last (some span) now = .ok ⟨m, d.next⟩) ∧
          (h ≤ last ∨ (period : Int) ∣ h.second - last.second ∨
              (∀ m, d.missed = some m → m ≤ h) →
            e.decision cap last (some span) now = .ok ⟨d.missed.filter (h < ·), d.next⟩) := by
  have he : e.Steps := steps_of_parse hparse
  refine ⟨fun d' hd' => next_eq_of_decision he hd hd', fun f hplan => ⟨?_, ?_⟩,
    fun period hplan => ⟨?_, ?_⟩⟩
  · exact decision_deadline_fields_iff hplan he hspan hdead hd
  · exact decision_deadline_of_gapless hplan he hspan hdead hd hlast
  · exact exists_decision_every hplan he hlast hnow hspan hdead hd
  · exact decision_deadline_every hplan he hlast hnow hspan hdead hd

end Expr

def hourly : Expr :=
  ⟨"@every 1h", 0, .every 3600⟩

/-- The fire missed on Friday counts with a deadline of four days and is left out with one of a day. With
a period of an hour, a deadline at an hour after the last launch leaves the last fire in. -/
theorem Expr.decision_deadline_workdays :
    ∃ last now m u : Instant, Expr.parse "CRON_TZ=-03:00 30 9 * * MON-FRI" = .ok workdays ∧
      workdays.decision 100 last none now = .ok ⟨some m, u⟩ ∧
      workdays.decision 100 last (some 345600000000000) now = .ok ⟨some m, u⟩ ∧
      workdays.decision 100 last (some 86400000000000) now = .ok ⟨none, u⟩ ∧
      ∃ last now m u : Instant, Expr.parse "@every 1h" = .ok hourly ∧
        hourly.decision 100 last none now = .ok ⟨some m, u⟩ ∧
        hourly.decision 100 last (some 5400000000000) now = .ok ⟨some m, u⟩ := by
  let last := Instant.ofSecond 1708905600
  let now := Instant.ofSecond 1709553600
  let ten := Instant.ofSecond 1709287200
  let halfPastTwelve := Instant.ofSecond 1709296200
  have hparse : Expr.parse "CRON_TZ=-03:00 30 9 * * MON-FRI" = .ok workdays := by decide +kernel
  have hd : workdays.decision 100 last none now =
      .ok ⟨some (.ofSecond 1709296200), .ofSecond 1709555400⟩ := by
    decide +kernel
  have hgap : workdayFields.Gapless workdays.zone last now := .of_year (by decide +kernel)
  obtain ⟨-, hdays, -⟩ := Expr.decision_deadline hparse (by decide +kernel) (by decide +kernel)
    (by decide) (show now.add? (-345600000000000) = some (.ofSecond 1709208000) by decide +kernel) hd
  obtain ⟨-, hday, -⟩ := Expr.decision_deadline hparse (by decide +kernel) (by decide +kernel)
    (by decide) (show now.add? (-86400000000000) = some (.ofSecond 1709467200) by decide +kernel) hd
  have hparse' : Expr.parse "@every 1h" = .ok hourly := by decide +kernel
  have hd' : hourly.decision 100 ten none halfPastTwelve =
      .ok ⟨some (.ofSecond 1709294400), .ofSecond 1709299800⟩ := by
    decide +kernel
  obtain ⟨-, -, hhours⟩ := Expr.decision_deadline hparse' (by decide +kernel) (by decide +kernel)
    (by decide)
    (show halfPastTwelve.add? (-5400000000000) = some (.ofSecond 1709290800) by decide +kernel) hd'
  exact ⟨last, now, _, _, hparse, hd, (hdays _ rfl).2 hgap, (hday _ rfl).2 hgap, ten, halfPastTwelve,
    _, _, hparse', hd', (hhours 3600 rfl).2 (.inr (.inl (by decide)))⟩

/-- Around 2100 eight years pass between two leap days: from 2096 on the walk finds none within its horizon, but
from 2100 on it does. A period is counted from the deadline on, so that no fire is left between the
deadline half a minute ago and now. -/
theorem Expr.decision_deadline_moves :
    (∃ (e : Expr) (last now m u h : Instant), Expr.parse "0 0 29 2 *" = .ok e ∧ last ≤ now ∧
      now.add? (-126230400000000000) = some h ∧ e.decision 100 last none now = .ok ⟨none, u⟩ ∧
      e.decision 100 last (some 126230400000000000) now = .ok ⟨some m, u⟩) ∧
    ∃ last now m u h : Instant, Expr.parse "@every 1h" = .ok hourly ∧ last ≤ now ∧
      now.add? (-30000000000) = some h ∧ h < m ∧
      hourly.decision 100 last none now = .ok ⟨some m, u⟩ ∧
      hourly.decision 100 last (some 30000000000) now = .ok ⟨none, u⟩ := by
  let leapDay : Expr := ⟨"0 0 29 2 *", 0,
    .fields ⟨⟨[0], false⟩, ⟨[0], false⟩, ⟨[29], false⟩, ⟨[2], false⟩, ⟨List.range 7, true⟩⟩⟩
  have hparse : Expr.parse "0 0 29 2 *" = .ok leapDay := by decide +kernel
  have hwithout : leapDay.decision 100 (.ofSecond 3981398400) none (.ofSecond 4233772800) =
      .ok ⟨none, .ofSecond 4359916800⟩ := by
    decide +kernel
  have hwith : leapDay.decision 100 (.ofSecond 3981398400) (some 126230400000000000)
      (.ofSecond 4233772800) = .ok ⟨some (.ofSecond 4233686400), .ofSecond 4359916800⟩ := by
    decide +kernel
  have hparse' : Expr.parse "@every 1h" = .ok hourly := by decide +kernel
  have hwithout' : hourly.decision 100 (.ofSecond 1709287200) none (.ofSecond 1709290800) =
      .ok ⟨some (.ofSecond 1709290800), .ofSecond 1709294400⟩ := by
    decide +kernel
  have hwith' : hourly.decision 100 (.ofSecond 1709287200) (some 30000000000)
      (.ofSecond 1709290800) = .ok ⟨none, .ofSecond 1709294400⟩ := by
    decide +kernel
  refine ⟨⟨leapDay, _, _, _, _, .ofSecond 4107542400, hparse, ?_, ?_, hwithout, hwith⟩, _, _, _, _,
    .ofSecond 1709290770, hparse', ?_, ?_, ?_, hwithout', hwith'⟩
  · decide
  · decide +kernel
  · decide
  · decide +kernel
  · decide

end Timetable.Cron
