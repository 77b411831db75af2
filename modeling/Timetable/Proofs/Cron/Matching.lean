import Mathlib.Order.Bounds.Basic
import Timetable.Proofs.Cron.Progress

/-!
# Searching for a matching minute

`Fields.Matches` says which minutes of the local clock the fields select, looking at the date and the time of
day alone. The search skips months, days and hours, but no matching minute, and it comes to an end: at the
first matching minute, or past its last year when there is none.
-/

namespace Timetable.Cron

section
variable {α : Type*} [LE α]

/-- The least element of a set, or `none` for the empty set. -/
def IsFirst (s : Set α) : Option α → Prop
  | some a => IsLeast s a
  | none => s = ∅

/-- The greatest element of a set, or `none` for the empty set. -/
def IsLast (s : Set α) : Option α → Prop
  | some a => IsGreatest s a
  | none => s = ∅

end

lemma IsLast.unique {α : Type*} [PartialOrder α] {s : Set α} {a b : Option α} (ha : IsLast s a)
    (hb : IsLast s b) : a = b := by
  cases a with
  | none =>
    cases b with
    | none => rfl
    | some b =>
      have hs : s = ∅ := ha
      have hmem := hb.1
      rw [hs] at hmem
      exact hmem.elim
  | some a =>
    cases b with
    | none =>
      have hs : s = ∅ := hb
      have hmem := ha.1
      rw [hs] at hmem
      exact hmem.elim
    | some b => rw [IsGreatest.unique ha hb]

lemma FieldSet.contains_iff {s : FieldSet} {v : Nat} : s.contains v = true ↔ v ∈ s.values := by
  simp [FieldSet.contains]

namespace Fields

/-- A date is selected by both day fields if one of them is a wildcard, otherwise by either. -/
def MatchesDay (f : Fields) (day : Int) : Prop :=
  if f.dayOfMonth.star = true ∨ f.dayOfWeek.star = true then
    (Date.ofDay day).day ∈ f.dayOfMonth.values ∧ Date.weekday day ∈ f.dayOfWeek.values
  else (Date.ofDay day).day ∈ f.dayOfMonth.values ∨ Date.weekday day ∈ f.dayOfWeek.values

/-- The fields select a minute of the local clock. -/
structure Matches (f : Fields) (minute : Int) : Prop where
  month : (dateOf minute).month ∈ f.month.values
  day : f.MatchesDay (dayOf minute)
  hour : (minute / 60 % 24).toNat ∈ f.hour.values
  minute : (minute % 60).toNat ∈ f.minute.values

variable {f : Fields}

lemma allowsDay_iff {day : Int} : f.allowsDay day = true ↔ f.MatchesDay day := by
  unfold allowsDay MatchesDay
  cases f.dayOfMonth.star <;> cases f.dayOfWeek.star <;> simp [FieldSet.contains_iff]

theorem skip?_eq_none_iff {minute : Int} : f.skip? minute = none ↔ f.Matches minute := by
  constructor
  · intro h
    unfold skip? at h
    dsimp only at h
    split_ifs at h with hmonth hday hhour hminute
    simp only [Bool.not_eq_true', Bool.not_eq_false] at hmonth hday hhour hminute
    exact ⟨FieldSet.contains_iff.1 hmonth, allowsDay_iff.1 hday, FieldSet.contains_iff.1 hhour,
      FieldSet.contains_iff.1 hminute⟩
  · rintro ⟨hmonth, hday, hhour, hminute⟩
    unfold skip?
    simp [FieldSet.contains_iff.2 hmonth, allowsDay_iff.2 hday, FieldSet.contains_iff.2 hhour,
      FieldSet.contains_iff.2 hminute]

instance (minute : Int) : Decidable (f.Matches minute) :=
  decidable_of_iff _ skip?_eq_none_iff

/-- No minute that is skipped matches. -/
theorem not_matches_of_skip? {minute next m : Int} (h : f.skip? minute = some next)
    (hm : minute ≤ m) (hlt : m < next) : ¬f.Matches m := by
  rintro ⟨hmonth, hday, hhour, hminute⟩
  unfold skip? at h
  dsimp only at h
  split_ifs at h with hskip hskip hskip hskip
  · obtain rfl := Option.some.inj h
    have hsame : (dateOf m).month = (dateOf minute).month := by
      refine Date.month_ofDay_eq (Int.ediv_le_ediv (by decide) hm) ?_
      have hnext : m < 1440 * (dateOf minute).nextMonthStart.toDay := hlt
      change m / 1440 < (dateOf minute).nextMonthStart.toDay
      omega
    rw [hsame] at hmonth
    simp [FieldSet.contains_iff.2 hmonth] at hskip
  · obtain rfl := Option.some.inj h
    have hsame : dayOf m = dayOf minute := by
      unfold dayOf at *
      omega
    rw [hsame] at hday
    simp [allowsDay_iff.2 hday] at hskip
  · obtain rfl := Option.some.inj h
    have hsame : m / 60 = minute / 60 := by omega
    rw [hsame] at hhour
    simp [FieldSet.contains_iff.2 hhour] at hskip
  · obtain rfl := Option.some.inj h
    obtain rfl : m = minute := by omega
    simp [FieldSet.contains_iff.2 hminute] at hskip

/-! ## The loop -/

/-- The matching minutes from `minute` to the end of a year. -/
def matchesUpTo (f : Fields) (lastYear minute : Int) : Set Int :=
  {m | minute ≤ m ∧ f.Matches m ∧ (dateOf m).year ≤ lastYear}

/-- How the search goes on from a minute and what it ends with, without a bound on its steps. -/
inductive Searches (f : Fields) (lastYear : Int) : Int → Option Int → Prop
  | past {minute : Int} (h : lastYear < (dateOf minute).year) : Searches f lastYear minute none
  | found {minute : Int} (h : (dateOf minute).year ≤ lastYear) (hmatch : f.skip? minute = none) :
      Searches f lastYear minute (some minute)
  | skip {minute next : Int} {r : Option Int} (h : (dateOf minute).year ≤ lastYear)
      (hskip : f.skip? minute = some next) (hrest : Searches f lastYear next r) :
      Searches f lastYear minute r

lemma year_dateOf_mono {a b : Int} (h : a ≤ b) : (dateOf a).year ≤ (dateOf b).year :=
  Date.year_ofDay_mono (Int.ediv_le_ediv (by decide) h)

lemma matchesUpTo_of_skip? {lastYear minute next : Int} (h : f.skip? minute = some next) :
    f.matchesUpTo lastYear minute = f.matchesUpTo lastYear next := by
  ext m
  constructor
  · rintro ⟨hm, hmatch, hyear⟩
    refine ⟨?_, hmatch, hyear⟩
    by_contra hlt
    exact not_matches_of_skip? h hm (by omega) hmatch
  · rintro ⟨hm, hmatch, hyear⟩
    exact ⟨(lt_of_skip? h).le.trans hm, hmatch, hyear⟩

/-- The loop ends with the first matching minute up to its last year, or with none when there is none. -/
theorem Searches.isFirst {lastYear minute : Int} {r : Option Int}
    (h : f.Searches lastYear minute r) : IsFirst (f.matchesUpTo lastYear minute) r := by
  induction h with
  | past h =>
    refine Set.eq_empty_of_forall_notMem ?_
    rintro m ⟨hm, -, hyear⟩
    have hmono := year_dateOf_mono hm
    omega
  | found h hmatch => exact ⟨⟨le_rfl, skip?_eq_none_iff.1 hmatch, h⟩, fun m hm => hm.1⟩
  | skip h hskip hrest ih => rwa [matchesUpTo_of_skip? hskip]

/-- The bounded search runs as the loop does, if it may take a step for each minute that is left. -/
theorem searches_search {lastYear minute : Int} {steps : Nat}
    (h : 1440 * (⟨lastYear + 1, 1, 1⟩ : Date).toDay ≤ minute + steps) :
    f.Searches lastYear minute (f.search lastYear steps minute) := by
  induction steps generalizing minute with
  | zero =>
    refine .past (Int.add_one_le_iff.1 (Date.le_year_ofDay_iff.2 ?_))
    unfold dayOf
    omega
  | succ steps ih =>
    unfold search
    split_ifs with hyear
    · exact .past hyear
    · cases hs : f.skip? minute with
      | none => exact .found (by omega) hs
      | some next =>
        have hlt := lt_of_skip? hs
        exact .skip (by omega) hs (ih (by push_cast at h; omega))

/-- The steps allowed suffice for all the years that are searched. -/
theorem searches_horizon (f : Fields) (start : Int) :
    f.Searches ((dateOf start).year + horizonYears) start
      (f.search ((dateOf start).year + horizonYears) searchSteps start) := by
  apply searches_search
  have hstart := Date.le_year_ofDay_iff.1 (le_refl (dateOf start).year)
  generalize (dateOf start).year = year at *
  have hyears : Date.daysBeforeYear (year + horizonYears + 1) ≤ Date.daysBeforeYear year + 6 * 366 := by
    unfold Date.daysBeforeYear horizonYears
    dsimp only
    omega
  rw [Date.toDay_newYear] at hstart ⊢
  unfold dayOf at hstart
  unfold searchSteps
  omega

end Fields

end Timetable.Cron
