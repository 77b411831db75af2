import Mathlib.Order.Basic
import Timetable.Calendar.Date

/-!
# Dates and day numbers

`Date.ofDay` gives a date that exists, and the two functions undo each other. The first day of the next
month lies as many days ahead as the month still has; until then the month stays the same, and years change
on the first of January.
-/

namespace Timetable.Date

/-! ## Months -/

lemma daysInMonth_le (leap : Bool) (month : Nat) : daysInMonth leap month ≤ 31 := by
  unfold daysInMonth
  split
  · split_ifs <;> decide
  all_goals decide

lemma daysBeforeMonth_succ (leap : Bool) {month : Nat} (h : 1 ≤ month) :
    daysBeforeMonth leap (month + 1) = daysBeforeMonth leap month + daysInMonth leap month := by
  obtain ⟨m, rfl⟩ := Nat.exists_eq_add_of_le' h
  rfl

lemma daysBeforeMonth_thirteen (leap : Bool) :
    daysBeforeMonth leap 13 = 365 + if leap then 1 else 0 := by
  cases leap <;> decide

/-- The search for the month ends in the month that holds the day, and loses no day on the way. -/
theorem monthAndDay_spec (leap : Bool) (count month yearDay : Nat) (hm : 1 ≤ month)
    (hd : daysBeforeMonth leap month + yearDay < daysBeforeMonth leap (month + count + 1)) :
    let r := monthAndDay leap count month yearDay
    month ≤ r.1 ∧ r.1 ≤ month + count ∧ 1 ≤ r.2 ∧ r.2 ≤ daysInMonth leap r.1 ∧
      daysBeforeMonth leap r.1 + r.2 = daysBeforeMonth leap month + yearDay + 1 := by
  induction count generalizing month yearDay with
  | zero =>
    have hs := daysBeforeMonth_succ leap hm
    simp only [monthAndDay]
    rw [Nat.add_zero] at hd
    refine ⟨?_, ?_, ?_, ?_, ?_⟩ <;> omega
  | succ count ih =>
    have hs := daysBeforeMonth_succ leap hm
    simp only [monthAndDay]
    split_ifs with hy
    · dsimp only
      refine ⟨?_, ?_, ?_, ?_, ?_⟩ <;> omega
    · have hnext := ih (month + 1) (yearDay - daysInMonth leap month) (by omega)
        (by rw [show month + 1 + count + 1 = month + (count + 1) + 1 by omega]; omega)
      dsimp only at hnext
      obtain ⟨h1, h2, h3, h4, h5⟩ := hnext
      exact ⟨by omega, by omega, h3, h4, by omega⟩

/-! ## Years -/

lemma isLeap_iff (year : Int) :
    isLeap year = true ↔ year % 4 = 0 ∧ (year % 100 ≠ 0 ∨ year % 400 = 0) := by
  simp [isLeap]

lemma daysBeforeYear_succ (year : Int) :
    daysBeforeYear (year + 1) = daysBeforeYear year + 365 + if isLeap year then 1 else 0 := by
  have hl := isLeap_iff year
  have hfour : year / 4 = (year - 1) / 4 + if year % 4 = 0 then 1 else 0 := by split_ifs <;> omega
  have hcent : year / 100 = (year - 1) / 100 + if year % 100 = 0 then 1 else 0 := by
    split_ifs <;> omega
  have hcycle : year / 400 = (year - 1) / 400 + if year % 400 = 0 then 1 else 0 := by
    split_ifs <;> omega
  unfold daysBeforeYear
  rw [Int.add_sub_cancel]
  dsimp only
  rw [hfour, hcent, hcycle]
  split_ifs with h4 h100 h400 hy <;> grind

/-- The year of a day, and which day of that year it is. -/
def yearAndDay (day : Int) : Int × Nat :=
  let z := day + epochDay
  let cycle := z / 146097
  let r := z % 146097
  let century := min (r / 36524) 3
  let r := r - 36524 * century
  let olympiad := r / 1461
  let r := r - 1461 * olympiad
  let rest := min (r / 365) 3
  (400 * cycle + 100 * century + 4 * olympiad + rest + 1, (r - 365 * rest).toNat)

lemma ofDay_eq (day : Int) :
    ofDay day =
      let year := (yearAndDay day).1
      let monthDay := monthAndDay (isLeap year) 11 1 (yearAndDay day).2
      ⟨year, monthDay.1, monthDay.2⟩ := rfl

section
variable (cycle : Int) {century olympiad rest : Int} (hc : 0 ≤ century ∧ century ≤ 3)
  (ho : 0 ≤ olympiad ∧ olympiad ≤ 24) (hr : 0 ≤ rest ∧ rest ≤ 3)
include hc ho hr

lemma daysBeforeYear_parts :
    daysBeforeYear (400 * cycle + 100 * century + 4 * olympiad + rest + 1) =
      146097 * cycle + 36524 * century + 1461 * olympiad + 365 * rest := by
  unfold daysBeforeYear
  rw [Int.add_sub_cancel]
  dsimp only
  omega

/-- The fourth year of four is a leap year, unless it ends one of the first three centuries. -/
lemma isLeap_parts :
    isLeap (400 * cycle + 100 * century + 4 * olympiad + rest + 1) = true ↔
      rest = 3 ∧ (olympiad = 24 → century = 3) := by
  rw [isLeap_iff]
  omega

end

/-- Each of the four divisions stays in its range, and only the last year of four can have 366 days. -/
lemma dayParts (z : Int) :
    let century := min (z % 146097 / 36524) 3
    let s := z % 146097 - 36524 * century
    let olympiad := s / 1461
    let t := s - 1461 * olympiad
    let rest := min (t / 365) 3
    (0 ≤ century ∧ century ≤ 3) ∧ (0 ≤ olympiad ∧ olympiad ≤ 24) ∧ (0 ≤ rest ∧ rest ≤ 3) ∧
      0 ≤ t - 365 * rest ∧
      (t - 365 * rest < 365 ∨ t - 365 * rest = 365 ∧ rest = 3 ∧ (olympiad = 24 → century = 3)) := by
  have hr := Int.emod_nonneg z (show (146097 : Int) ≠ 0 by decide)
  have hr' := Int.emod_lt_of_pos z (show (0 : Int) < 146097 by decide)
  generalize z % 146097 = r at *
  intro century s olympiad t rest
  have hc : 0 ≤ century ∧ century ≤ 3 := by omega
  have hs : 0 ≤ s ∧ s ≤ 36524 ∧ (century < 3 → s < 36524) := by omega
  have ho : 0 ≤ olympiad ∧ olympiad ≤ 24 := by omega
  have ht : 0 ≤ t ∧ t ≤ 1460 ∧ (olympiad = 24 → t = s - 35064) := by omega
  have hy : 0 ≤ rest ∧ rest ≤ 3 ∧ (rest < 3 → t - 365 * rest < 365) := by omega
  exact ⟨hc, ho, ⟨hy.1, hy.2.1⟩, by omega, by omega⟩

/-- A cycle of 400 years, a century, four years and a year each end where the next one begins. -/
theorem yearAndDay_spec (day : Int) :
    daysBeforeYear (yearAndDay day).1 + (yearAndDay day).2 = day + epochDay ∧
      (yearAndDay day).2 < 365 + if isLeap (yearAndDay day).1 then 1 else 0 := by
  obtain ⟨hc, ho, hr, hd, hlast⟩ := dayParts (day + epochDay)
  have hyear := daysBeforeYear_parts ((day + epochDay) / 146097) hc ho hr
  have hleap := isLeap_parts ((day + epochDay) / 146097) hc ho hr
  have hz := Int.mul_ediv_add_emod (day + epochDay) 146097
  constructor
  · unfold yearAndDay
    dsimp only
    rw [hyear]
    omega
  · unfold yearAndDay
    dsimp only
    obtain hd | ⟨hd, hyear⟩ := hlast
    · split_ifs <;> omega
    · rw [if_pos (hleap.2 hyear)]
      omega

lemma ofDay_monthAndDay (day : Int) :
    1 ≤ (ofDay day).month ∧ (ofDay day).month ≤ 12 ∧ 1 ≤ (ofDay day).day ∧
      (ofDay day).day ≤ daysInMonth (isLeap (ofDay day).year) (ofDay day).month ∧
      daysBeforeMonth (isLeap (ofDay day).year) (ofDay day).month + (ofDay day).day =
        (yearAndDay day).2 + 1 := by
  have hy := (yearAndDay_spec day).2
  rw [← daysBeforeMonth_thirteen] at hy
  have hone : daysBeforeMonth (isLeap (yearAndDay day).1) 1 = 0 := rfl
  have hm := monthAndDay_spec (isLeap (yearAndDay day).1) 11 1 (yearAndDay day).2 (Nat.le_refl _)
    (by simpa [hone] using hy)
  rw [hone, Nat.zero_add] at hm
  rw [ofDay_eq]
  exact hm

theorem ofDay_valid (day : Int) : (ofDay day).Valid := by
  obtain ⟨h1, h2, h3, h4, -⟩ := ofDay_monthAndDay day
  exact ⟨h1, h2, h3, h4⟩

theorem toDay_ofDay (day : Int) : (ofDay day).toDay = day := by
  have hday := (yearAndDay_spec day).1
  have hyear : (ofDay day).year = (yearAndDay day).1 := rfl
  have hsum := (ofDay_monthAndDay day).2.2.2.2
  unfold toDay
  rw [hyear] at hsum ⊢
  omega

def nextMonthStart (d : Date) : Date :=
  if d.month = 12 then ⟨d.year + 1, 1, 1⟩ else ⟨d.year, d.month + 1, 1⟩

theorem toDay_nextMonthStart {d : Date} (h : 1 ≤ d.month) :
    d.nextMonthStart.toDay = d.toDay - d.day + daysInMonth (isLeap d.year) d.month + 1 := by
  have hs := daysBeforeMonth_succ (isLeap d.year) h
  unfold nextMonthStart
  split_ifs with hm
  · have hyear := daysBeforeYear_succ d.year
    have hone : daysBeforeMonth (isLeap (d.year + 1)) 1 = 0 := rfl
    rw [hm, show 12 + 1 = 13 from rfl, daysBeforeMonth_thirteen] at hs
    unfold toDay
    rw [hm]
    dsimp only
    split_ifs at hyear hs <;> omega
  · unfold toDay
    dsimp only
    omega

/-! ## From dates to days -/

lemma daysBeforeYear_mono {a b : Int} (h : a ≤ b) : daysBeforeYear a ≤ daysBeforeYear b := by
  unfold daysBeforeYear
  dsimp only
  omega

lemma toDay_newYear (year : Int) :
    (⟨year, 1, 1⟩ : Date).toDay = daysBeforeYear year - epochDay := by
  have hone : daysBeforeMonth (isLeap year) 1 = 0 := rfl
  unfold toDay
  dsimp only
  omega

/-- Years change on the first of January. -/
theorem le_year_ofDay_iff {year day : Int} :
    year ≤ (ofDay day).year ↔ (⟨year, 1, 1⟩ : Date).toDay ≤ day := by
  have hyear : (ofDay day).year = (yearAndDay day).1 := rfl
  obtain ⟨hday, hlt⟩ := yearAndDay_spec day
  rw [hyear, toDay_newYear]
  constructor
  · intro h
    have hmono := daysBeforeYear_mono h
    omega
  · intro h
    by_contra hlate
    have hmono := daysBeforeYear_mono (show (yearAndDay day).1 + 1 ≤ year by omega)
    have hnext := daysBeforeYear_succ (yearAndDay day).1
    split_ifs at hlt hnext <;> omega

lemma year_ofDay_mono {a b : Int} (h : a ≤ b) : (ofDay a).year ≤ (ofDay b).year :=
  le_year_ofDay_iff.2 (Int.le_trans (le_year_ofDay_iff.1 (Int.le_refl _)) h)

/-- Within a year's length the year changes at most once. -/
lemma year_ofDay_le_succ {a b : Int} (h : a ≤ b + 365) : (ofDay a).year ≤ (ofDay b).year + 1 := by
  by_contra hlate
  have ha := le_year_ofDay_iff.1 (show (ofDay b).year + 1 + 1 ≤ (ofDay a).year by omega)
  have hb := mt le_year_ofDay_iff.2 (show ¬(ofDay b).year + 1 ≤ (ofDay b).year by omega)
  have hnext := daysBeforeYear_succ ((ofDay b).year + 1)
  rw [toDay_newYear] at ha hb
  split_ifs at hnext <;> omega

lemma daysBeforeMonth_mono (leap : Bool) {a b : Nat} (ha : 1 ≤ a) (h : a ≤ b) :
    daysBeforeMonth leap a ≤ daysBeforeMonth leap b := by
  induction h with
  | refl => exact Nat.le_refl _
  | @step b hb ih =>
    rw [daysBeforeMonth_succ leap (Nat.le_trans ha hb)]
    omega

section
variable {d : Date} (hd : d.Valid)
include hd

lemma year_ofDay_toDay : (ofDay d.toDay).year = d.year := by
  obtain ⟨h1, h12, hday, hlast⟩ := hd
  have hsucc := daysBeforeMonth_succ (isLeap d.year) h1
  have hend := daysBeforeMonth_mono (isLeap d.year) (Nat.le_add_left 1 d.month)
    (show d.month + 1 ≤ 13 by omega)
  rw [daysBeforeMonth_thirteen] at hend
  have hnext := daysBeforeYear_succ d.year
  have hlow : d.year ≤ (ofDay d.toDay).year := by
    rw [le_year_ofDay_iff, toDay_newYear]
    unfold toDay
    omega
  have hhigh : ¬d.year + 1 ≤ (ofDay d.toDay).year := by
    rw [le_year_ofDay_iff, toDay_newYear]
    unfold toDay
    split_ifs at hnext hend <;> omega
  omega

/-- A date that exists is the date of its day. -/
theorem ofDay_toDay : ofDay d.toDay = d := by
  have hyear := year_ofDay_toDay hd
  have hsame := toDay_ofDay d.toDay
  obtain ⟨h1, h12, hday, hlast⟩ := hd
  obtain ⟨g1, g12, gday, glast⟩ := ofDay_valid d.toDay
  generalize ofDay d.toDay = e at *
  obtain ⟨year, month, day⟩ := e
  obtain rfl : year = d.year := hyear
  have hcount : daysBeforeMonth (isLeap d.year) month + day =
      daysBeforeMonth (isLeap d.year) d.month + d.day := by
    unfold toDay at hsame
    dsimp only at hsame
    omega
  have hsucc := daysBeforeMonth_succ (isLeap d.year) h1
  have gsucc := daysBeforeMonth_succ (isLeap d.year) g1
  dsimp only at *
  have hmonth : month = d.month := by
    obtain hlt | heq | hgt := Nat.lt_trichotomy month d.month
    · have := daysBeforeMonth_mono (isLeap d.year) (Nat.le_add_left 1 month) hlt
      omega
    · exact heq
    · have := daysBeforeMonth_mono (isLeap d.year) (Nat.le_add_left 1 d.month) hgt
      omega
  subst hmonth
  have hday : day = d.day := by omega
  subst hday
  rfl

end

/-- The month stays the same up to its end. -/
theorem month_ofDay_eq {day later : Int} (h : day ≤ later)
    (hlt : later < (ofDay day).nextMonthStart.toDay) : (ofDay later).month = (ofDay day).month := by
  obtain ⟨h1, h12, hday, hlast⟩ := ofDay_valid day
  rw [toDay_nextMonthStart h1, toDay_ofDay] at hlt
  let d : Date := ⟨(ofDay day).year, (ofDay day).month, (ofDay day).day + (later - day).toNat⟩
  have hd : d.Valid := ⟨h1, h12, by dsimp only [d]; omega, by dsimp only [d]; omega⟩
  have hlater : d.toDay = later := by
    have := toDay_ofDay day
    unfold toDay at this ⊢
    dsimp only [d]
    omega
  rw [← hlater, ofDay_toDay hd]

end Timetable.Date
