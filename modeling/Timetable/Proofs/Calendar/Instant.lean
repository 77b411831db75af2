import Mathlib.Order.MinMax
import Timetable.Calendar.Instant
import Timetable.Object.History
import Timetable.Proofs.Calendar.Date

/-!
# The order of instants

Instants are linearly ordered, and the latest of some instants is an upper bound that is one of them. The span
to a later whole second is positive, except across midnight right after a leap second.
-/

namespace Timetable

namespace Instant

/-- The calendar by years. -/
lemma representable_iff {t : Instant} :
    t.Representable ↔ Date.firstYear ≤ t.date.year ∧ t.date.year ≤ Date.lastYear := by
  have hlow := @Date.le_year_ofDay_iff Date.firstYear (t.second / 86400)
  have hhigh := @Date.le_year_ofDay_iff (Date.lastYear + 1) (t.second / 86400)
  unfold Representable firstSecond endSecond date
  omega

lemma le_def {a b : Instant} :
    a ≤ b ↔ a.second < b.second ∨ (a.second = b.second ∧ a.nano ≤ b.nano) := Iff.rfl

lemma lt_def {a b : Instant} :
    a < b ↔ a.second < b.second ∨ (a.second = b.second ∧ a.nano < b.nano) := Iff.rfl

@[ext]
lemma ext {a b : Instant} (hs : a.second = b.second) (hn : a.nano = b.nano) : a = b := by
  cases a
  cases b
  simp_all

instance : LinearOrder Instant where
  le_refl a := by
    rw [le_def]
    omega
  le_trans a b c hab hbc := by
    rw [le_def] at *
    omega
  lt_iff_le_not_ge a b := by
    rw [lt_def, le_def, le_def]
    omega
  le_antisymm a b hab hba := by
    rw [le_def] at *
    exact ext (by omega) (by omega)
  le_total a b := by
    rw [le_def, le_def]
    omega
  toDecidableLE := inferInstance
  toDecidableEq := inferInstance
  toDecidableLT := inferInstance
  max_def _ _ := rfl

lemma second_mono {a b : Instant} (h : a ≤ b) : a.second ≤ b.second := by
  rw [le_def] at h
  omega

/-! ## Spans -/

lemma truncate_shift (t : Instant) (seconds : Int) :
    t.truncate.shift (seconds * giga) = .ofSecond (t.second + seconds) := by
  have hshift : t.truncate.shift (seconds * giga) = .ofNanos (t.second * giga + seconds * giga) := by
    simp [shift, truncate, ofSecond, giga]
  rw [hshift]
  apply ext
  · simp only [ofNanos, ofSecond, giga]
    omega
  · simp only [ofNanos, ofSecond, giga]
    omega

lemma lt_ofSecond_add {seconds : Nat} (h : 1 ≤ seconds) (t : Instant) : t < .ofSecond (t.second + seconds) := by
  rw [lt_def]
  left
  simp only [ofSecond]
  omega

/-- The time until a whole second to come is positive, but for a leap second right before midnight: a difference
across midnight does not count it. -/
lemma since_pos_iff {now next : Instant} (h : now < next) (hwhole : next.nano = 0) :
    0 < next.since now ↔
      ¬(now.isLeap ∧ next.second = now.second + 1 ∧ next.second % 86400 = 0) := by
  have hnano := now.nano_lt
  have hnext : next.isLeap = false := by
    simp [isLeap, hwhole, giga]
  have hleap : now.isLeap = true ↔ 1000000000 ≤ now.nano := by
    unfold isLeap giga
    exact decide_eq_true_iff
  rw [lt_def, hwhole] at h
  unfold since
  simp only [hnext, hwhole, giga, Bool.and_eq_true, decide_eq_true_eq, hleap, Bool.false_eq_true,
    and_false, if_false, Int.cast_ofNat_Int]
  split_ifs <;> omega

lemma add?_eq_some_iff {t u : Instant} {span : Int} :
    t.add? span = some u ↔ u.Representable ∧ t.shift span = u := by
  unfold add?
  dsimp only
  split_ifs with hin
  · rw [Option.some.injEq]
    exact ⟨fun h => ⟨h ▸ hin, h⟩, And.right⟩
  · refine iff_of_false nofun ?_
    rintro ⟨hu, rfl⟩
    exact hin hu

lemma representable_of_add? {t u : Instant} {span : Int} (h : t.add? span = some u) :
    u.Representable :=
  (add?_eq_some_iff.1 h).1

end Instant

/-! ## The latest instant -/

lemma latest_eq_some_iff {times : List Instant} {t : Instant} :
    latest times = some t ↔ t ∈ times ∧ ∀ u ∈ times, u ≤ t := by
  unfold latest
  exact List.max?_eq_some_iff

lemma exists_latest {times : List Instant} (h : times ≠ []) : ∃ t, latest times = some t :=
  Option.isSome_iff_exists.1 (List.isSome_max?_of_ne_nil h)

lemma le_of_latest {times : List Instant} {t u : Instant} (h : latest times = some t)
    (hu : u ∈ times) : u ≤ t :=
  (latest_eq_some_iff.1 h).2 u hu

end Timetable
