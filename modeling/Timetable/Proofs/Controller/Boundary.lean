import Timetable.Proofs.Controller.Lateness

/-!
# A fire at the deadline

The walk starts strictly after the deadline, while a missed fire is given up only once it is older than the deadline.
So the two tests differ about a fire that lies at the deadline itself: the second one would keep it, but the first
one has left it out.
-/

namespace Timetable

/-- What lies no more than a span before now is at most a span over. -/
lemma Instant.le_shift_of_shift_neg_le {t now : Instant} {span : Int} (hwhole : t.nano = 0) (hspan : 0 ≤ span)
    (hback : now.shift (-span) ≤ t) : now ≤ t.shift span := by
  rw [shift_of_whole hwhole]
  rw [le_def] at hback ⊢
  obtain ⟨hsecond, hnano⟩ | ⟨-, heq⟩ := shift_neg_cases now hspan
  · unfold ofNanos giga
    dsimp only
    omega
  · rw [heq] at hback
    unfold ofNanos giga at *
    dsimp only at *
    omega

namespace Cron.Expr
variable {e : Expr} {f : Fields} {start last now h m : Instant} {cap : Nat} {span : Int}

section
variable (hplan : e.plan = .fields f)
include hplan

/-- A walk that meets the latest fire has come across no gap. -/
lemma gapless_of_meets (hm : e.Meets start m) (hlatest : ∀ u ∈ f.missed e.zone start now, u ≤ m) :
    f.Gapless e.zone start now := by
  intro p u _ hp hu hle
  have hum : u ≤ m := hlatest u ⟨hu.1.1, hp.trans_lt hu.1.2, hle⟩
  obtain ⟨v, hv, -⟩ := exists_meets_of_le hplan hp hm (lt_of_lt_of_le hu.1.2 hum)
  rw [nextAfter_fields hplan] at hv
  obtain ⟨hleast, hyear⟩ := Fields.isLeast_coming_iff.1 (Fields.isLeast_coming_of_nextAfter hv)
  rwa [hu.unique hleast]

section
variable (he : e.Steps) (hlast : last.Representable) (hrep : h.Representable) {l : Option Instant}
  (hwhole : e.Unbroken (max last h) now) (hl : IsLast (e.met (max last h) now) l)
  (hm : IsGreatest (f.missed e.zone last now) m)
include he hl hm

include hlast hrep hwhole in
/-- The walk ends with the latest fire exactly if that fire is younger than the deadline and no gap is too long. -/
lemma eq_some_latest_iff : l = some m ↔ h < m ∧ f.Gapless e.zone (max last h) now := by
  have hstart : (max last h).Representable := by
    obtain hmax | hmax := max_choice last h
    · rwa [hmax]
    · rwa [hmax]
  have hlatest : ∀ u ∈ f.missed e.zone (max last h) now, u ≤ m := by
    rintro u ⟨hu, hlt, hle⟩
    exact hm.2 ⟨hu, (le_max_left last h).trans_lt hlt, hle⟩
  constructor
  · rintro rfl
    have hmeets : e.Meets (max last h) m := hl.1.1
    exact ⟨(le_max_right last h).trans_lt (lt_of_meets he hmeets), gapless_of_meets hplan hmeets hlatest⟩
  · rintro ⟨hlt, hgap⟩
    have hmem : m ∈ f.missed e.zone (max last h) now :=
      ⟨hm.1.1, max_lt hm.1.2.1 hlt, hm.1.2.2⟩
    have hgreatest : IsLast (e.met (max last h) now) (some m) := by
      rw [met_eq_missed he hplan hstart hgap hwhole]
      exact ⟨hmem, hlatest⟩
    exact hl.unique hgreatest

/-- At the deadline there is nothing left to meet. -/
lemma eq_none_of_latest (hdead : m ≤ h) : l = none := by
  have hempty : e.met (max last h) now = ∅ := by
    refine Set.eq_empty_of_forall_notMem fun u hu => ?_
    obtain ⟨hfire, hlt, hle⟩ := met_subset_missed he hplan hu
    have hum : u ≤ m := hm.2 ⟨hfire, (le_max_left last h).trans_lt hlt, hle⟩
    exact (hum.trans hdead).not_gt ((le_max_right last h).trans_lt hlt)
  rw [hempty] at hl
  exact hl.unique rfl

end

end

/-- A decision with a deadline names the latest fire if that fire is younger than the deadline and no gap is longer
than the horizon of a search. It does not name one that is exactly as old, although that one is not late. -/
theorem decision_at_deadline {text : String} (hparse : Expr.parse text = .ok e) (hplan : e.plan = .fields f)
    (hlast : last.Representable) (hnow : now.Representable) (hspan : 0 ≤ span)
    (hdead : now.add? (-span) = some h) (hm : IsGreatest (f.missed e.zone last now) m) (hrecent : h ≤ m)
    (hcap : (f.missed e.zone (max last h) now).encard ≤ cap) :
    Pass.isLate m (some span) now = false ∧
      ((e.decision cap last (some span) now = .error .beyondCalendar ∧
          (localYear e.zone (max last h) < Date.firstYear ∨ Date.lastYear < horizon e.zone now)) ∨
        (e.decision cap last (some span) now = .error (.unsatisfiable e.source) ∧ f.coming e.zone now = ∅) ∨
        ∃ d, e.decision cap last (some span) now = .ok d ∧ IsLeast (f.coming e.zone now) d.next ∧
          (d.missed = some m ↔ h < m ∧ f.Gapless e.zone (max last h) now) ∧ (m = h → d.missed = none)) := by
  have he : e.Steps := steps_of_parse hparse
  obtain ⟨hrep, hshift⟩ := Instant.add?_eq_some_iff.1 hdead
  have hstart : earliest last (some span) now = max last h := by
    rw [earliest_some hspan, hdead]
    rfl
  constructor
  · have hwhole := Fields.nano_of_fires hm.1.1
    exact Pass.isLate_eq_false
      (Instant.le_shift_of_shift_neg_le hwhole hspan (hshift.le.trans hrecent))
  · obtain ⟨hr, hbroken⟩ | ⟨-, hmany⟩ | ⟨-, hwhole, ⟨hnever, hr⟩ | ⟨l, u, hl, hu, hr⟩⟩ :=
      decision_cases he cap hstart
    · have hbefore : max last h ≤ now := max_le (hm.1.2.1.le.trans hm.1.2.2) (hrecent.trans hm.1.2.2)
      have hnear := near_end_of_broken he hplan hbroken
      rw [min_eq_left hbefore] at hnear
      exact .inl ⟨hr, hnear⟩
    · have hfew := (Set.encard_le_encard (met_subset_missed he hplan)).trans hcap
      exact absurd hfew hmany.not_ge
    · rw [nextAfter_fields hplan] at hnever
      exact .inr (.inl ⟨hr, Fields.coming_eq_empty_of_nextAfter hnow hnever⟩)
    · rw [nextAfter_fields hplan] at hu
      refine .inr (.inr ⟨⟨l, u⟩, hr, Fields.isLeast_coming_of_nextAfter hu, ?_, ?_⟩)
      · exact eq_some_latest_iff hplan he hlast hrep hwhole hl hm
      · exact fun hmh => eq_none_of_latest hplan he hl hm hmh.le

/-- Without a deadline, what is missed is the latest fire. -/
lemma isGreatest_of_decision {u : Instant} (he : e.Steps) (hplan : e.plan = .fields f) (hlast : last.Representable)
    (hgap : f.Gapless e.zone last now) (hd : e.decision cap last none now = .ok ⟨some m, u⟩) :
    IsGreatest (f.missed e.zone last now) m ∧ (f.missed e.zone last now).encard ≤ cap := by
  have hstart : earliest last none now = last := rfl
  obtain ⟨hcount, hwhole, hl, -⟩ := (decision_eq_ok_iff he cap hstart).1 hd
  rw [met_eq_missed he hplan hlast hgap hwhole] at hcount hl
  exact ⟨hl, hcount⟩

/-- On Monday noon, the fire of Friday is younger than four days. -/
theorem decision_at_deadline_workdays :
    ∃ last now h m : Instant, ∃ d, Expr.parse "CRON_TZ=-03:00 30 9 * * MON-FRI" = .ok workdays ∧
      now.add? (-345600000000000) = some h ∧ IsGreatest (workdayFields.missed workdays.zone last now) m ∧
      last < h ∧ h < m ∧ workdays.decision 100 last (some 345600000000000) now = .ok d ∧ d.missed = some m ∧
      Pass.isLate m (some 345600000000000) now = false := by
  let last := Instant.ofSecond 1708905600
  let now := Instant.ofSecond 1709553600
  let h := Instant.ofSecond 1709208000
  let m := Instant.ofSecond 1709296200
  have hparse : Expr.parse "CRON_TZ=-03:00 30 9 * * MON-FRI" = .ok workdays := by decide +kernel
  have hlast : last.Representable := by decide +kernel
  have hnow : now.Representable := by decide +kernel
  have hdead : now.add? (-345600000000000) = some h := by decide +kernel
  have hgap : workdayFields.Gapless workdays.zone last now := .of_year (by decide +kernel)
  have hgap' : workdayFields.Gapless workdays.zone (max last h) now := .of_year (by decide +kernel)
  have hd : workdays.decision 100 last none now = .ok ⟨some m, .ofSecond 1709555400⟩ := by decide +kernel
  have hd' : workdays.decision 100 last (some 345600000000000) now = .ok ⟨some m, .ofSecond 1709555400⟩ := by
    decide +kernel
  obtain ⟨hm, hcount⟩ := isGreatest_of_decision (steps_of_parse hparse) rfl hlast hgap hd
  have hfewer : workdayFields.missed workdays.zone (max last h) now ⊆
      workdayFields.missed workdays.zone last now :=
    fun u hu => ⟨hu.1, (le_max_left last h).trans_lt hu.2.1, hu.2.2⟩
  obtain ⟨hlate, ⟨hr, -⟩ | ⟨hr, -⟩ | ⟨d, hr, -, hiff, -⟩⟩ :=
    decision_at_deadline hparse rfl hlast hnow (by decide) hdead hm (by decide)
      ((Set.encard_le_encard hfewer).trans hcount)
  · simp [hd'] at hr
  · simp [hd'] at hr
  · exact ⟨last, now, h, m, d, hparse, hdead, hm, by decide, by decide, hr, hiff.2 ⟨by decide, hgap'⟩, hlate⟩

def fullHours : Fields :=
  ⟨⟨[0], false⟩, ⟨List.range 24, true⟩, ⟨List.range' 1 31, true⟩, ⟨List.range' 1 12, true⟩, ⟨List.range 7, true⟩⟩

def onTheHour : Expr :=
  ⟨"0 * * * *", 0, .fields fullHours⟩

/-- With a deadline of zero the fire of the present hour is not missed, although it is not late. -/
theorem decision_drops_present_fire :
    ∃ last now u : Instant, Expr.parse "0 * * * *" = .ok onTheHour ∧ last ≤ now ∧ now.add? (-0) = some now ∧
      IsGreatest (fullHours.missed onTheHour.zone last now) now ∧
      (fullHours.missed onTheHour.zone last now).encard ≤ 100 ∧
      Pass.isLate now (some 0) now = false ∧ onTheHour.decision 100 last (some 0) now = .ok ⟨none, u⟩ := by
  let last := Instant.ofSecond 1709287200
  let now := Instant.ofSecond 1709290800
  have hparse : Expr.parse "0 * * * *" = .ok onTheHour := by decide +kernel
  have hlast : last.Representable := by decide +kernel
  have hgap : fullHours.Gapless onTheHour.zone last now := .of_year (by decide +kernel)
  have hd : onTheHour.decision 100 last none now = .ok ⟨some now, .ofSecond 1709294400⟩ := by decide +kernel
  have hzero : onTheHour.decision 100 last (some 0) now = .ok ⟨none, .ofSecond 1709294400⟩ := by decide +kernel
  obtain ⟨hm, hcount⟩ := isGreatest_of_decision (steps_of_parse hparse) rfl hlast hgap hd
  exact ⟨last, now, _, hparse, by decide, by decide +kernel, hm, hcount, by decide +kernel, hzero⟩

end Cron.Expr

end Timetable
