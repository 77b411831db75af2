import Timetable.Proofs.Cron.Deadline

/-!
# From a decision to its next fire

With five fields a decision stays the same until its next fire, so that nothing falls due for one who sleeps until
then. A period is counted from the present where the next fire is looked for and from the last launch where
missed fires are. Between the two a fire falls due earlier, unless whole periods have passed since the launch.
-/

namespace Timetable.Cron

namespace Expr
variable {e : Expr} {f : Fields} {last now later u : Instant} {cap : Nat} {d : Decision}

/-- If the same fires have been met later, the same one is missed. -/
lemma decision_later_of_met_eq (he : e.Steps) (hle : last ≤ now)
    (hd : e.decision cap last none now = .ok d) (hmet : e.met last later = e.met last now)
    (hnext : e.nextAfter later = .at u) : e.decision cap last none later = .ok ⟨d.missed, u⟩ := by
  obtain ⟨hcount, hwhole, hmissed, -⟩ := (decision_eq_ok_iff he cap rfl).1 hd
  refine (decision_eq_ok_iff he cap rfl).2 ⟨hmet ▸ hcount, ?_, hmet ▸ hmissed, hnext⟩
  rintro p (rfl | hp) hlater
  · exact hwhole _ (.inl rfl) hle
  · have hmem : p ∈ e.met last later := ⟨hp, hlater⟩
    rw [hmet] at hmem
    exact hwhole p (.inr hp) hmem.2

/-- With fields nothing changes until the next fire. -/
theorem decision_later_fields (hplan : e.plan = .fields f) (he : e.Steps) (hle : last ≤ now)
    (hd : e.decision cap last none now = .ok d) (hlater : now ≤ later) (hlt : later < d.next) :
    e.decision cap last none later = .ok d := by
  obtain ⟨-, -, -, hnext⟩ := (decision_eq_ok_iff he cap rfl).1 hd
  refine decision_later_of_met_eq he hle hd ?_ (nextAfter_eq_of_lt hplan hnext hlater hlt)
  ext u
  constructor
  · rintro ⟨hu, hu'⟩
    refine ⟨hu, ?_⟩
    by_contra hafter
    have hmeets : e.Meets now u := meets_of_le hplan hle hu (not_le.1 hafter)
    have hdue : d.next ≤ u := le_of_meets he hnext hmeets
    exact (hdue.trans hu').not_gt hlt
  · rintro ⟨hu, hu'⟩
    exact ⟨hu, hu'.trans hlater⟩

section
variable {period : Nat} (hplan : e.plan = .every period) (hperiod : 1 ≤ period)
  (hlast : last.Representable) (hnow : now.Representable) (hlrep : later.Representable)
include hplan hperiod hlast

include hnow hlrep in
/-- After whole periods none is met for a period. -/
lemma met_every_later (hdvd : (period : Int) ∣ now.second - last.second)
    (hlater : now.second ≤ later.second) (hlt : later.second < now.second + period) :
    e.met last later = e.met last now := by
  ext u
  rw [mem_met_every_iff hplan hperiod hlast hlrep, mem_met_every_iff hplan hperiod hlast hnow]
  constructor
  · rintro ⟨hwhole, hafter, hle, hu⟩
    refine ⟨hwhole, hafter, ?_, hu⟩
    by_contra hlate
    have hperiods : (period : Int) ∣ u.second - now.second := by
      rw [← sub_sub_sub_cancel_right u.second now.second last.second]
      exact hu.sub hdvd
    have hstep : (period : Int) ≤ u.second - now.second := Int.le_of_dvd (by omega) hperiods
    omega
  · rintro ⟨hwhole, hafter, hle, hu⟩
    exact ⟨hwhole, hafter, by omega, hu⟩

include hlrep in
/-- If none is met until a second before a period is over, whole periods have passed before. -/
lemma dvd_of_met_every (hle : last.second ≤ now.second)
    (hlater : later.second = now.second + period - 1) (hnone : ∀ u ∈ e.met last later, u ≤ now) :
    (period : Int) ∣ now.second - last.second := by
  obtain ⟨s, hs, hs', hdvd⟩ := exists_multiple_after hperiod last.second now.second
  obtain heq | hlt := hs'.eq_or_lt
  · have hperiods : now.second - last.second = s - last.second - period := by omega
    rw [hperiods]
    exact hdvd.sub (dvd_refl _)
  · have hmem : Instant.ofSecond s ∈ e.met last later := by
      refine (mem_met_every_iff hplan hperiod hlast hlrep).2 ⟨rfl, ?_, ?_, hdvd⟩
      · simp only [Instant.ofSecond]
        omega
      · simp only [Instant.ofSecond]
        omega
    have hbefore : s ≤ now.second := Instant.second_mono (hnone _ hmem)
    omega

end

/-- With a period, the same fire stays missed until the next one exactly if whole periods have passed since the
last launch, as long as the calendar reaches. -/
theorem decision_later_every_iff {period : Nat} (hplan : e.plan = .every period) (he : e.Steps)
    (hlast : last.Representable) (hnow : now.Representable) (hle : last ≤ now)
    (hd : e.decision cap last none now = .ok d) :
    (∀ later, now ≤ later → later < d.next →
        ∃ u, e.decision cap last none later = .ok ⟨d.missed, u⟩) ↔
      (period : Int) ∣ now.second - last.second ∧
        now.second + 2 * period ≤ Instant.endSecond := by
  have hperiod : 1 ≤ period := he period hplan
  have hseconds : last.second ≤ now.second := Instant.second_mono hle
  obtain ⟨-, -, hmissed, hnext⟩ := (decision_eq_ok_iff he cap rfl).1 hd
  obtain ⟨hrep, hnext⟩ := (nextAfter_every_eq_at_iff hplan).1 hnext
  have hwithin : ∀ later : Instant, later < d.next ↔ later.second < now.second + period := by
    intro later
    rw [hnext, Instant.lt_def]
    simp only [Instant.ofSecond]
    omega
  have hcalendar : ∀ later : Instant, now.second ≤ later.second →
      later.second < now.second + period → later.Representable := by
    intro later hlater hlt
    rw [hnext] at hrep
    unfold Instant.Representable Instant.ofSecond at *
    dsimp only at *
    omega
  constructor
  · intro h
    -- the last second before the next fire
    let later : Instant := ⟨now.second + period - 1, now.nano, now.nano_lt⟩
    have hlater : now ≤ later := by
      rw [Instant.le_def]
      dsimp only [later]
      omega
    have hlt : later.second < now.second + period := by
      dsimp only [later]
      omega
    obtain ⟨u, hu⟩ := h later hlater ((hwithin later).2 hlt)
    obtain ⟨-, -, hmissed', hnext'⟩ := (decision_eq_ok_iff he cap rfl).1 hu
    constructor
    · refine dvd_of_met_every hplan hperiod hlast
        (hcalendar later (Instant.second_mono hlater) hlt) hseconds rfl fun v hv => ?_
      -- what has been missed later on had been missed by now
      obtain ⟨m, hm⟩ := hmissed'.exists_eq_some ⟨v, hv⟩
      rw [hm] at hmissed hmissed'
      exact (hmissed'.2 hv).trans hmissed.1.2
    · obtain ⟨hrep', rfl⟩ := (nextAfter_every_eq_at_iff hplan).1 hnext'
      have hend : later.second + period < Instant.endSecond := hrep'.2
      dsimp only [later] at hend
      omega
  · rintro ⟨hdvd, hend⟩ later hlater hlt
    have hafter : now.second ≤ later.second := Instant.second_mono hlater
    have hbefore : later.second < now.second + period := (hwithin later).1 hlt
    have hlrep : later.Representable := hcalendar later hafter hbefore
    have hmet := met_every_later hplan hperiod hlast hnow hlrep hdvd hafter hbefore
    refine ⟨.ofSecond (later.second + period), decision_later_of_met_eq he hle hd hmet ?_⟩
    refine (nextAfter_every_eq_at_iff hplan).2 ⟨⟨?_, ?_⟩, rfl⟩
    · have hstart : Instant.firstSecond ≤ later.second := hlrep.1
      simp only [Instant.ofSecond]
      omega
    · simp only [Instant.ofSecond]
      omega

/-- For fields a decision stays the same until its next fire; for a period exactly if it is made whole periods after
the last launch. -/
theorem decision_until_next {text : String} (hparse : Expr.parse text = .ok e)
    (hlast : last.Representable) (hnow : now.Representable) (hle : last ≤ now)
    (hd : e.decision cap last none now = .ok d) :
    (∀ f, e.plan = .fields f → ∀ later, now ≤ later → later < d.next →
        e.decision cap last none later = .ok d) ∧
      ∀ period, e.plan = .every period →
        ((∀ later, now ≤ later → later < d.next →
            ∃ u, e.decision cap last none later = .ok ⟨d.missed, u⟩) ↔
          (period : Int) ∣ now.second - last.second ∧
            now.second + 2 * period ≤ Instant.endSecond) := by
  have he : e.Steps := steps_of_parse hparse
  constructor
  · intro f hplan later hlater hlt
    exact decision_later_fields hplan he hle hd hlater hlt
  · intro period hplan
    exact decision_later_every_iff hplan he hlast hnow hle hd

end Expr

def tenMinutes : Expr :=
  ⟨"@every 10m", 0, .every 600⟩

/-- From Monday noon to half past the decision is the same. Twenty minutes after the last launch, the same fire
stays missed for ten more. -/
theorem Expr.decision_until_next_workdays :
    ∃ last now later m u : Instant,
      Expr.parse "CRON_TZ=-03:00 30 9 * * MON-FRI" = .ok workdays ∧ now < later ∧ later < u ∧
      workdays.decision 100 last none now = .ok ⟨some m, u⟩ ∧
      workdays.decision 100 last none later = .ok ⟨some m, u⟩ ∧
      ∃ last now m u : Instant, Expr.parse "@every 10m" = .ok tenMinutes ∧
        tenMinutes.decision 100 last none now = .ok ⟨some m, u⟩ ∧
        ∀ later, now ≤ later → later < u →
          ∃ v, tenMinutes.decision 100 last none later = .ok ⟨some m, v⟩ := by
  have hparse : Expr.parse "CRON_TZ=-03:00 30 9 * * MON-FRI" = .ok workdays := by decide +kernel
  have hd : workdays.decision 100 (.ofSecond 1708905600) none (.ofSecond 1709553600) =
      .ok ⟨some (.ofSecond 1709296200), .ofSecond 1709555400⟩ := by
    decide +kernel
  have hparse' : Expr.parse "@every 10m" = .ok tenMinutes := by decide +kernel
  have hd' : tenMinutes.decision 100 (.ofSecond 1709287200) none (.ofSecond 1709288400) =
      .ok ⟨some (.ofSecond 1709288400), .ofSecond 1709289000⟩ := by
    decide +kernel
  have hfields := (Expr.decision_until_next hparse (by decide +kernel) (by decide +kernel)
    (by decide) hd).1 _ rfl (.ofSecond 1709555399) (by decide) (by decide)
  have hperiod := ((Expr.decision_until_next hparse' (by decide +kernel) (by decide +kernel)
    (by decide) hd').2 600 rfl).2 ⟨by decide, by decide +kernel⟩
  exact ⟨_, _, .ofSecond 1709555399, _, _, hparse, by decide, by decide, hd, hfields, _, _, _, _,
    hparse', hd', hperiod⟩

/-- Five minutes after the last launch nothing is missed and the next fire is announced for ten minutes later,
but the one ten minutes after the launch falls due before that. -/
theorem Expr.decision_due_early :
    ∃ last now later m u v : Instant, Expr.parse "@every 10m" = .ok tenMinutes ∧ last ≤ now ∧
      now ≤ later ∧ later < u ∧ tenMinutes.decision 100 last none now = .ok ⟨none, u⟩ ∧
      tenMinutes.decision 100 last none later = .ok ⟨some m, v⟩ := by
  have hparse : Expr.parse "@every 10m" = .ok tenMinutes := by decide +kernel
  have hnow : tenMinutes.decision 100 (.ofSecond 1709287200) none (.ofSecond 1709287500) =
      .ok ⟨none, .ofSecond 1709288100⟩ := by
    decide +kernel
  have hlater : tenMinutes.decision 100 (.ofSecond 1709287200) none (.ofSecond 1709287920) =
      .ok ⟨some (.ofSecond 1709287800), .ofSecond 1709288520⟩ := by
    decide +kernel
  exact ⟨_, _, _, _, _, _, hparse, by decide, by decide, by decide, hnow, hlater⟩

end Timetable.Cron
