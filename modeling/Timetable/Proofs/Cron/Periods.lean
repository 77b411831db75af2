import Mathlib.Tactic.Positivity
import Mathlib.Tactic.Ring
import Timetable.Proofs.Cron.Walk

/-!
# Fires of a period

A period is counted from the instant that is asked about: the fires that are met after it are the whole seconds
whose distance from it is a multiple of the period.
-/

namespace Timetable

/-- Within a period after any second there is one at a distance of whole periods from another. -/
lemma exists_multiple_after {period : Nat} (hperiod : 1 ≤ period) (start second : Int) :
    ∃ s, second < s ∧ s ≤ second + period ∧ (period : Int) ∣ s - start := by
  have hlow := Int.emod_nonneg (second - start) (show (period : Int) ≠ 0 by omega)
  have hhigh := Int.emod_lt_of_pos (second - start) (show (0 : Int) < period by omega)
  refine ⟨second + period - (second - start) % period, by omega, by omega, ?_⟩
  have hsplit : second + period - (second - start) % period - start =
      second - start - (second - start) % period + period := by
    ring
  rw [hsplit]
  exact (Int.dvd_self_sub_emod).add (dvd_refl _)

namespace Cron.Expr
variable {e : Expr} {period : Nat} (hplan : e.plan = .every period) {start now t u : Instant}
include hplan

lemma nextAfter_every (t : Instant) :
    e.nextAfter t =
      if (Instant.ofSecond (t.second + period)).Representable then .at (.ofSecond (t.second + period))
      else .beyond := by
  unfold nextAfter
  rw [hplan]
  dsimp only
  unfold Instant.add?
  dsimp only
  rw [Instant.truncate_shift]
  split_ifs <;> rfl

lemma nextAfter_every_eq_at_iff :
    e.nextAfter t = .at u ↔ u.Representable ∧ u = .ofSecond (t.second + period) := by
  rw [nextAfter_every hplan]
  split_ifs with h
  · constructor
    · intro hu
      obtain rfl := Upcoming.at.inj hu
      exact ⟨h, rfl⟩
    · rintro ⟨-, rfl⟩
      rfl
  · constructor
    · intro hu
      simp at hu
    · rintro ⟨hu, rfl⟩
      exact absurd hu h

lemma meets_of_multiple (hstart : start.Representable) (k : Nat)
    (h : (Instant.ofSecond (start.second + period * (k + 1))).Representable) :
    e.Meets start (.ofSecond (start.second + period * (k + 1))) := by
  induction k with
  | zero =>
    rw [Nat.cast_zero, zero_add, mul_one] at h ⊢
    exact .first ((nextAfter_every_eq_at_iff hplan).2 ⟨h, rfl⟩)
  | succ k ih =>
    have hsplit : start.second + period * ((k + 1 : Nat) + 1) =
        start.second + period * (k + 1) + period := by
      push_cast
      ring
    have hpos : (0 : Int) ≤ period * (k + 1) := by positivity
    rw [hsplit] at h ⊢
    have hbefore : (Instant.ofSecond (start.second + period * (k + 1))).Representable := by
      unfold Instant.Representable Instant.ofSecond at *
      dsimp only at *
      omega
    exact .next (ih hbefore) ((nextAfter_every_eq_at_iff hplan).2 ⟨h, rfl⟩)

section
variable (hperiod : 1 ≤ period) (hstart : start.Representable)
include hperiod hstart

theorem meets_every_iff :
    e.Meets start u ↔
      u.Representable ∧ u.nano = 0 ∧ start.second < u.second ∧
        (period : Int) ∣ u.second - start.second := by
  constructor
  · intro h
    induction h with
    | first h =>
      obtain ⟨hu, rfl⟩ := (nextAfter_every_eq_at_iff hplan).1 h
      refine ⟨hu, rfl, ?_, ?_⟩
      · simp only [Instant.ofSecond]
        omega
      · simp [Instant.ofSecond]
    | @next p v _ h ih =>
      obtain ⟨hv, rfl⟩ := (nextAfter_every_eq_at_iff hplan).1 h
      obtain ⟨-, -, hlt, hdvd⟩ := ih
      refine ⟨hv, rfl, ?_, ?_⟩
      · simp only [Instant.ofSecond]
        omega
      · have hsplit : p.second + period - start.second = p.second - start.second + period := by ring
        rw [Instant.ofSecond, hsplit]
        exact hdvd.add (dvd_refl _)
  · rintro ⟨hu, hwhole, hlt, k, hk⟩
    have hk0 : 0 < k := by
      by_contra hneg
      have hle : (period : Int) * k ≤ 0 := mul_nonpos_of_nonneg_of_nonpos (by omega) (by omega)
      omega
    have heq : u = .ofSecond (start.second + period * ((k - 1).toNat + 1)) := by
      rw [Int.toNat_of_nonneg (by omega), Int.sub_add_cancel]
      exact Instant.ext (by simp only [Instant.ofSecond]; omega) hwhole
    rw [heq] at hu ⊢
    exact meets_of_multiple hplan hstart _ hu

/-- The fires up to now are the whole seconds at a distance of some periods. -/
theorem mem_met_every_iff (hnow : now.Representable) :
    u ∈ e.met start now ↔
      u.nano = 0 ∧ start.second < u.second ∧ u.second ≤ now.second ∧
        (period : Int) ∣ u.second - start.second := by
  have hmem : u ∈ e.met start now ↔ e.Meets start u ∧ u ≤ now := Iff.rfl
  rw [hmem, meets_every_iff hplan hperiod hstart]
  constructor
  · rintro ⟨⟨-, hwhole, hlt, hdvd⟩, hle⟩
    rw [Instant.le_def] at hle
    exact ⟨hwhole, hlt, by omega, hdvd⟩
  · rintro ⟨hwhole, hlt, hle, hdvd⟩
    refine ⟨⟨?_, hwhole, hlt, hdvd⟩, ?_⟩
    · unfold Instant.Representable at *
      omega
    · rw [Instant.le_def]
      omega

section
variable {h : Instant} (hrep : h.Representable) (hle : start ≤ h) (hnow : now.Representable)
include hrep hle hnow

/-- Counted from a later start there are no more of them. -/
lemma encard_met_every_le : (e.met h now).encard ≤ (e.met start now).encard := by
  have hseconds : start.second ≤ h.second := Instant.second_mono hle
  apply Set.encard_le_encard_of_injOn
    (f := fun u => .ofSecond (u.second - (h.second - start.second)))
  · intro u hu
    obtain ⟨-, hlt, hle', hdvd⟩ := (mem_met_every_iff hplan hperiod hrep hnow).1 hu
    refine (mem_met_every_iff hplan hperiod hstart hnow).2 ⟨rfl, ?_, ?_, ?_⟩
    · simp only [Instant.ofSecond]
      omega
    · simp only [Instant.ofSecond]
      omega
    · change (period : Int) ∣ u.second - (h.second - start.second) - start.second
      rwa [sub_sub, sub_add_cancel]
  · intro u hu v hv huv
    have hu0 := ((mem_met_every_iff hplan hperiod hrep hnow).1 hu).1
    have hv0 := ((mem_met_every_iff hplan hperiod hrep hnow).1 hv).1
    have hseconds := congrArg Instant.second huv
    simp only [Instant.ofSecond] at hseconds
    exact Instant.ext (by omega) (by omega)

/-- They are the same if the later start keeps the step. -/
lemma met_every_eq_of_dvd (hdvd : (period : Int) ∣ h.second - start.second) :
    e.met h now = e.met start now ∩ Set.Ioi h := by
  have hseconds : start.second ≤ h.second := Instant.second_mono hle
  ext u
  rw [Set.mem_inter_iff, Set.mem_Ioi, mem_met_every_iff hplan hperiod hrep hnow,
    mem_met_every_iff hplan hperiod hstart hnow]
  have hlate : u.nano = 0 → (h < u ↔ h.second < u.second) := by
    intro hwhole
    rw [Instant.lt_def]
    omega
  have hsteps : (period : Int) ∣ u.second - h.second ↔ (period : Int) ∣ u.second - start.second := by
    rw [← sub_add_sub_cancel u.second h.second start.second, dvd_add_left hdvd]
  constructor
  · rintro ⟨hwhole, hlt', hle', hu⟩
    exact ⟨⟨hwhole, by omega, hle', hsteps.1 hu⟩, (hlate hwhole).2 hlt'⟩
  · rintro ⟨⟨hwhole, -, hle', hu⟩, hlt'⟩
    exact ⟨hwhole, (hlate hwhole).1 hlt', hle', hsteps.2 hu⟩

/-- A fire after the later start has one from the earlier start before it. -/
lemma met_every_eq_empty (hnone : e.met start now ∩ Set.Ioi h = ∅) : e.met h now = ∅ := by
  have hseconds : start.second ≤ h.second := Instant.second_mono hle
  refine Set.eq_empty_of_forall_notMem fun u hu => ?_
  obtain ⟨-, hlt, hle', hdvd⟩ := (mem_met_every_iff hplan hperiod hrep hnow).1 hu
  obtain ⟨s, hs, hs', hsdvd⟩ := exists_multiple_after hperiod start.second h.second
  have hperiods : (period : Int) ≤ u.second - h.second := Int.le_of_dvd (by omega) hdvd
  have hmem : Instant.ofSecond s ∈ e.met start now := by
    refine (mem_met_every_iff hplan hperiod hstart hnow).2 ⟨rfl, ?_, ?_, hsdvd⟩
    · simp only [Instant.ofSecond]
      omega
    · simp only [Instant.ofSecond]
      omega
  have hafter : h < Instant.ofSecond s := .inl hs
  exact Set.eq_empty_iff_forall_notMem.1 hnone _ ⟨hmem, hafter⟩

end

lemma unbroken_every (hnext : e.nextAfter now = .at t) : e.Unbroken start now := by
  intro p hp hle hbeyond
  obtain ⟨hrep, rfl⟩ := (nextAfter_every_eq_at_iff hplan).1 hnext
  have hge : start.second ≤ p.second := by
    obtain rfl | hp := hp
    · exact le_rfl
    · exact ((meets_every_iff hplan hperiod hstart).1 hp).2.2.1.le
  rw [Instant.le_def] at hle
  rw [nextAfter_every hplan, if_pos] at hbeyond
  · simp at hbeyond
  · unfold Instant.Representable Instant.ofSecond at *
    dsimp only at *
    omega

end

end Cron.Expr

end Timetable
