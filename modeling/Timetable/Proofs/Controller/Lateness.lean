import Timetable.Proofs.Controller.Effects
import Timetable.Proofs.Cron.Deadline

/-!
# Missed fires are not late

The deadline of a schedule is applied twice: fires older than it do not count as missed, and a missed fire is given up
if the deadline after it is over. The second test never succeeds, also where the calendar ends and in leap seconds.
-/

namespace Timetable

namespace Instant
variable {t now : Instant} {span : Int}

/-- A span of less than a second leads back within a leap second. Otherwise the nanoseconds are counted down. -/
lemma shift_neg_cases (t : Instant) (hspan : 0 ≤ span) :
    ((t.shift (-span)).second = t.second ∧ ((t.shift (-span)).nano : Int) = t.nano - span) ∨
      (t.nano < giga ∨ giga ≤ span) ∧ t.shift (-span) = .ofNanos (t.second * giga + t.nano - span) := by
  have hnano := t.nano_lt
  have hdiv : (-span).tdiv giga = -(span / giga) := by
    rw [Int.neg_tdiv, Int.tdiv_eq_ediv_of_nonneg hspan]
  have hmod : (-span).tmod giga = -(span % giga) := by
    rw [Int.neg_tmod, Int.tmod_eq_emod_of_nonneg hspan]
  unfold shift
  simp only [hdiv, hmod]
  split_ifs with hplain hforward hback
  · exact Or.inr ⟨Or.inl hplain, rfl⟩
  · unfold giga at *
    omega
  · right
    have hcount : (t.second + 1) * giga + (t.nano - giga : Nat) + -span = t.second * giga + t.nano - span := by
      unfold giga at *
      omega
    refine ⟨Or.inr ?_, by rw [hcount]⟩
    unfold giga at *
    omega
  · left
    unfold giga at *
    dsimp only
    omega

lemma shift_neg_le (hspan : 0 ≤ span) : t.shift (-span) ≤ t := by
  have hnano := t.nano_lt
  rw [le_def]
  obtain ⟨hsecond, hback⟩ | ⟨hlong, heq⟩ := shift_neg_cases t hspan
  · omega
  · rw [heq]
    unfold ofNanos giga at *
    dsimp only
    omega

lemma shift_of_whole (hwhole : t.nano = 0) (span : Int) : t.shift span = .ofNanos (t.second * giga + span) := by
  unfold shift
  rw [if_pos (by simp [hwhole, giga]), hwhole]
  simp

/-- What lies less than a span before now is less than a span over. -/
lemma lt_shift_of_shift_neg_lt (hwhole : t.nano = 0) (hspan : 0 ≤ span) (hle : t ≤ now)
    (hlt : now.shift (-span) < t) : now < t.shift span := by
  rw [shift_of_whole hwhole]
  rw [lt_def] at hlt ⊢
  rw [le_def] at hle
  obtain ⟨hsecond, hback⟩ | ⟨-, heq⟩ := shift_neg_cases now hspan
  · omega
  · rw [heq] at hlt
    unfold ofNanos giga at *
    dsimp only at *
    omega

end Instant

namespace Cron.Expr
variable {e : Expr} {start last now t : Instant} {span : Int}

lemma representable_of_nextAfter (h : e.nextAfter start = .at t) : t.Representable := by
  cases hplan : e.plan with
  | fields f =>
    rw [nextAfter_fields hplan] at h
    exact (Fields.isLeast_coming_of_nextAfter h).1.1.1
  | every period => exact ((nextAfter_every_eq_at_iff hplan).1 h).1

lemma representable_of_meets (h : e.Meets start t) : t.Representable := by
  cases h with
  | first h => exact representable_of_nextAfter h
  | next _ h => exact representable_of_nextAfter h

/-- For a missed fire the deadline is still to come. -/
theorem lt_shift_of_missed (he : e.Steps) {cap : Nat} {d : Decision} (hnow : now.Representable) (hspan : 0 ≤ span)
    (h : e.decision cap last (some span) now = .ok d) (hm : d.missed = some t) : now < t.shift span := by
  obtain ⟨-, -, hlast, -⟩ := (decision_eq_ok_iff he cap rfl).1 h
  rw [hm] at hlast
  obtain ⟨⟨hmeets, hle⟩, -⟩ := hlast
  have hwhole := (decision_missed_later he h hm).2
  have hback : now.shift (-span) ≤ now := Instant.shift_neg_le hspan
  have hstart := lt_of_meets he hmeets
  rw [earliest_some hspan] at hstart
  apply Instant.lt_shift_of_shift_neg_lt hwhole hspan hle
  by_cases hin : (now.shift (-span)).Representable
  · have hadd : now.add? (-span) = some (now.shift (-span)) := if_pos hin
    rw [hadd] at hstart
    exact (le_max_right _ _).trans_lt hstart
  · -- the deadline reaches past the beginning of the calendar, where there are no fires
    have hrep := representable_of_meets hmeets
    have hsecond := Instant.second_mono hback
    rw [Instant.lt_def]
    unfold Instant.Representable at *
    omega

end Cron.Expr

lemma Schedule.startingDeadline_nonneg {s : Schedule} {span : Int} (h : s.startingDeadline = .ok (some span)) :
    0 ≤ span := by
  unfold startingDeadline at h
  split at h
  · simp at h
  · split_ifs at h with hnegative
    obtain rfl := Option.some.inj (Except.ok.inj h)
    unfold giga
    omega

namespace Pass

/-- What is due up to the end of its deadline is not late. -/
lemma isLate_eq_false {fire now : Instant} {span : Int} (h : now ≤ fire.shift span) :
    isLate fire (some span) now = false := by
  unfold isLate
  rw [Option.bind_some]
  cases hadd : fire.add? span with
  | none => rfl
  | some expiry =>
    obtain ⟨-, rfl⟩ := Instant.add?_eq_some_iff.1 hadd
    exact decide_eq_false h.not_gt

/-- No pass gives up a missed fire because it is late. -/
theorem not_isLate {cap : Nat} {s : Schedule} {now fire next : Instant} {deadline : Option Int}
    (hnow : now.Representable) (h : judge cap s now = .decided ⟨some fire, next⟩ deadline) :
    isLate fire deadline now = false := by
  obtain ⟨e, hparse, hdeadline, hdecision⟩ := judge_eq_decided_iff.1 h
  cases deadline with
  | none => rfl
  | some span =>
    have hspan := Schedule.startingDeadline_nonneg hdeadline
    exact isLate_eq_false
      (Cron.Expr.lt_shift_of_missed (Cron.Expr.steps_of_parse hparse) hnow hspan hdecision rfl).le

end Pass

end Timetable
