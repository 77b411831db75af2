import Timetable.Proofs.Cron.Limits

/-!
# What lies past the horizon

A search that finds nothing has looked at five years. Fields that match at all match in every year, unless they match
on leap days only; and between leap days there are at most eight years, across a century year that is no leap year. So
only the leap day after such a year can be overlooked.
-/

namespace Timetable

namespace Date
variable {d : Date} {year : Int} {month day : Nat}

lemma le_daysInMonth (leap : Bool) (month : Nat) : 28 ≤ daysInMonth leap month := by
  unfold daysInMonth
  split
  · split_ifs <;> decide
  all_goals decide

lemma weekday_lt (day : Int) : weekday day < 7 := by
  unfold weekday
  omega

/-- The first four weeks of a month have all weekdays. -/
lemma exists_weekday (year : Int) (hmonth : 1 ≤ month ∧ month ≤ 12) {w : Nat} (hw : w < 7) :
    ∃ d : Date, d.Valid ∧ d.year = year ∧ d.month = month ∧ weekday d.toDay = w := by
  let first : Int := (⟨year, month, 1⟩ : Date).toDay
  let wait : Nat := ((w - (first + 4)) % 7).toNat
  have hwait : wait < 7 := by omega
  have hday : (⟨year, month, 1 + wait⟩ : Date).toDay = first + wait := by
    unfold first toDay
    push_cast
    omega
  refine ⟨⟨year, month, 1 + wait⟩, ⟨hmonth.1, hmonth.2, Nat.le_add_right 1 wait, ?_⟩, rfl, rfl, ?_⟩
  · have hlast := le_daysInMonth (isLeap year) month
    dsimp only
    omega
  · rw [hday]
    unfold weekday
    omega

/-- A day of the year that some year does not have is the leap day. -/
lemma valid_or_leapDay (h : d.Valid) (year : Int) :
    (⟨year, d.month, d.day⟩ : Date).Valid ∨ d.month = 2 ∧ d.day = 29 := by
  obtain ⟨hfirst, hlast, hday, hend⟩ := h
  by_cases hfebruary : d.month = 2
  · rw [hfebruary] at hend ⊢
    have hlong : daysInMonth (isLeap d.year) 2 ≤ 29 := by cases isLeap d.year <;> decide
    have hshort := le_daysInMonth (isLeap year) 2
    by_cases hleap : d.day = 29
    · exact .inr ⟨rfl, hleap⟩
    · refine .inl ⟨one_le_two, ?_, hday, ?_⟩
      all_goals
        dsimp only
        omega
  · have hsame : daysInMonth (isLeap year) d.month = daysInMonth (isLeap d.year) d.month := by
      unfold daysInMonth
      split
      · exact absurd ‹_› hfebruary
      all_goals rfl
    exact .inl ⟨hfirst, hlast, hday, hend.trans_eq hsame.symm⟩

lemma leapDay_valid_iff : (⟨year, 2, 29⟩ : Date).Valid ↔ isLeap year = true := by
  unfold Valid
  dsimp only
  cases isLeap year <;> decide

/-- Five years without a leap day have a century year among the second to the fourth. -/
lemma century_of_no_leap (h : ∀ y, year < y → y ≤ year + 5 → isLeap y = false) :
    ∃ century, century % 100 = 0 ∧ century % 400 ≠ 0 ∧ century - 4 ≤ year ∧ year ≤ century - 2 ∧
      isLeap (century + 4) = true := by
  have hno : ∀ y, year < y → y ≤ year + 5 → y % 4 = 0 → y % 100 = 0 ∧ y % 400 ≠ 0 := by
    intro y hlow hhigh hfour
    have hleap : ¬isLeap y = true := by simp [h y hlow hhigh]
    rw [isLeap_iff] at hleap
    omega
  -- the multiple of four next to the middle of the five
  refine ⟨year + 4 - year % 4, ?_⟩
  have hcentury := hno (year + 4 - year % 4) (by omega) (by omega) (by omega)
  rw [isLeap_iff]
  by_cases hfirst : year % 4 = 3
  · have hnext := hno (year + 5) (by omega) (by omega) (by omega)
    omega
  · omega

end Date

namespace Cron

/-! ## What is spelled -/

/-- What all texts of five fields have: some weekday is allowed, and plain wildcards allow all days. -/
structure Fields.Spelled (f : Fields) : Prop where
  weekday : ∃ w < 7, w ∈ f.dayOfWeek.values
  anyDay : f.dayOfMonth.star = true → ∀ d, 1 ≤ d → d ≤ 31 → d ∈ f.dayOfMonth.values
  anyWeekday : f.dayOfWeek.star = true → ∀ w < 7, w ∈ f.dayOfWeek.values

section
variable {field : Field} {part body : List Char} {b : Bounds} {bounds : Field → List Bounds} {f : Fields} {v : Nat}

lemma Bounds.steps_lo (hle : b.lo ≤ b.hi) : b.Steps b.lo :=
  ⟨hle, 0, by simp⟩

lemma IsRange.eq_of_wildcard {stepped : Bool} {range : List Char} {lo hi : Nat}
    (h : IsRange field stepped range lo hi true) : lo = field.lowest ∧ hi = field.wildcardEnd := by
  cases h with
  | star => exact ⟨rfl, rfl⟩
  | any => exact ⟨rfl, rfl⟩

lemma IsPart.eq_of_star (h : IsPart field part b) (hstar : b.star = true) :
    b = ⟨field.lowest, field.wildcardEnd, 1, true⟩ := by
  cases h with
  | plain h =>
    obtain rfl := hstar
    obtain ⟨rfl, rfl⟩ := h.eq_of_wildcard
    rfl
  | stepped h =>
    rw [Bool.and_eq_true, beq_iff_eq] at hstar
    obtain ⟨rfl, rfl⟩ := hstar
    obtain ⟨rfl, rfl⟩ := h.eq_of_wildcard
    rfl

lemma IsBody.exists_bounds (h : IsBody body bounds) (field : Field) : ∃ b, b ∈ bounds field := by
  obtain ⟨raw, -, hlist⟩ := h.isList field
  refine List.exists_mem_of_ne_nil _ fun hnil => ?_
  unfold IsList at hlist
  rw [hnil, List.forall₂_nil_right_iff] at hlist
  exact List.splitOn_ne_nil _ _ hlist

/-- A plain wildcard allows all values that it spans. -/
lemma IsBody.contains_of_star (h : IsBody body bounds) (field : Field)
    (hstar : ((Bounds.fields bounds).get field).star = true) (hlow : field.lowest ≤ v)
    (hhigh : v ≤ field.wildcardEnd) : ((Bounds.fields bounds).get field).contains v = true := by
  obtain ⟨b, hb, hplain⟩ := (star_get bounds field).1 hstar
  obtain ⟨part, hpart⟩ := h.exists_part hb
  obtain rfl := hpart.eq_of_star hplain
  refine h.contains_iff.2 ⟨_, hb, v, ?_, ?_⟩
  · exact ⟨hhigh, v - field.lowest, by dsimp only; omega⟩
  · refine (if_neg ?_).symm
    rintro ⟨rfl, rfl⟩
    exact absurd hhigh (by decide)

lemma spelled_of_parseFields (h : parseFields body = .ok f) : f.Spelled := by
  obtain ⟨bounds, hbody, -, rfl⟩ := parseFields_eq_ok_iff.1 h
  constructor
  · obtain ⟨b, hb⟩ := hbody.exists_bounds .dayOfWeek
    obtain ⟨part, hpart⟩ := hbody.exists_part hb
    obtain ⟨hle, hhi, -⟩ := hpart.bounds
    have hlo : b.lo ≤ 7 := hle.trans hhi
    refine ⟨Field.dayOfWeek.fold b.lo, ?_, ?_⟩
    · rw [fold_dayOfWeek hlo]
      exact Nat.mod_lt _ (by decide)
    · have hcontains : ((Bounds.fields bounds).get .dayOfWeek).contains (Field.dayOfWeek.fold b.lo) = true :=
        hbody.contains_iff.2 ⟨b, hb, b.lo, Bounds.steps_lo hle, rfl⟩
      exact FieldSet.contains_iff.1 hcontains
  · intro hstar d hlow hhigh
    exact FieldSet.contains_iff.1 (hbody.contains_of_star .dayOfMonth hstar hlow hhigh)
  · intro hstar w hw
    exact FieldSet.contains_iff.1 (hbody.contains_of_star .dayOfWeek hstar (Nat.zero_le w) (Nat.le_of_lt_succ hw))

end

lemma exists_body_of_parsePlan {body : List Char} {f : Fields} (h : parsePlan body = .ok (.fields f)) :
    ∃ body, parseFields body = .ok f := by
  have hevery : ∀ period : Except CronError Nat, period.map Plan.every ≠ .ok (.fields f) := by
    intro period
    cases period <;> nofun
  have hread : ∀ body : List Char, (parseFields body).map Plan.fields = .ok (.fields f) → parseFields body = .ok f := by
    intro body hread
    cases hfields : parseFields body with
    | error e => simp [hfields, Except.map] at hread
    | ok g =>
      rw [hfields] at hread
      rw [Plan.fields.inj (Except.ok.inj hread)]
  unfold parsePlan at h
  split at h
  · simp at h
  · unfold parseDescriptor at h
    split at h
    · exact ⟨_, hread _ h⟩
    · split at h
      · split_ifs at h
        exact absurd h (hevery _)
      · simp at h
  · exact ⟨_, hread _ h⟩

lemma Expr.spelled_of_parse {text : String} {e : Expr} {f : Fields} (hparse : Expr.parse text = .ok e)
    (hplan : e.plan = .fields f) : f.Spelled := by
  rw [parse_eq] at hparse
  cases hzone : splitZone (Text.trim text.toList) with
  | error err => simp [hzone, Except.bind] at hparse
  | ok zoned =>
    rw [hzone] at hparse
    cases hread : parsePlan (Text.trim zoned.2) with
    | error err => simp [Except.bind, hread, Except.map] at hparse
    | ok plan =>
      simp only [Except.bind, hread, Except.map, Except.ok.injEq] at hparse
      subst hparse
      obtain rfl : plan = .fields f := hplan
      obtain ⟨body, hbody⟩ := exists_body_of_parsePlan hread
      exact spelled_of_parseFields hbody

namespace Fields
variable {f : Fields} {zone m : Int} {t : Instant} {d : Date}

/-! ## Matches in other years -/

/-- The time of day of a matching minute matches on any other day that is allowed. -/
lemma Matches.moved (h : f.Matches m) (hd : d.Valid) (hmonth : d.month ∈ f.month.values)
    (hday : f.MatchesDay d.toDay) : ∃ m', f.Matches m' ∧ dateOf m' = d := by
  let m' : Int := 1440 * d.toDay + m % 1440
  have hdayOf : dayOf m' = d.toDay := by
    unfold dayOf
    omega
  have hdate : dateOf m' = d := by
    unfold dateOf
    rw [hdayOf, Date.ofDay_toDay hd]
  have hhour : m' / 60 % 24 = m / 60 % 24 := by omega
  have hminute : m' % 60 = m % 60 := by omega
  refine ⟨m', ⟨?_, ?_, ?_, ?_⟩, hdate⟩
  · rwa [hdate]
  · rwa [hdayOf]
  · rw [hhour]
    exact h.hour
  · rw [hminute]
    exact h.minute

/-- The matching days are leap days. -/
def OnLeapDays (f : Fields) : Prop :=
  ∀ m, f.Matches m → (dateOf m).month = 2 ∧ (dateOf m).day = 29

/-- Each month has a day on a weekday that is allowed by itself. -/
lemma Matches.exists_of_weekday (h : f.Matches m) (year : Int) {w : Nat} (hw : w < 7)
    (hday : ∀ d : Date, d.Valid → Date.weekday d.toDay = w → f.MatchesDay d.toDay) :
    ∃ m', f.Matches m' ∧ (dateOf m').year = year := by
  have hvalid : (dateOf m).Valid := Date.ofDay_valid (dayOf m)
  obtain ⟨d, hd, hyear, hsame, hweekday⟩ := Date.exists_weekday year ⟨hvalid.1, hvalid.2.1⟩ hw
  obtain ⟨m', hm', hdate⟩ := h.moved hd (hsame ▸ h.month) (hday d hd hweekday)
  exact ⟨m', hm', by rw [hdate, hyear]⟩

lemma matchesDay_iff (hstar : f.dayOfMonth.star = true ∨ f.dayOfWeek.star = true) (hd : d.Valid) :
    f.MatchesDay d.toDay ↔ d.day ∈ f.dayOfMonth.values ∧ Date.weekday d.toDay ∈ f.dayOfWeek.values := by
  unfold MatchesDay
  rw [if_pos hstar, Date.ofDay_toDay hd]

/-- What matches at all matches in a given year, or it is a leap day, and any leap day would do. -/
lemma Spelled.match_year (hf : f.Spelled) (h : f.Matches m) (year : Int) :
    (∃ m', f.Matches m' ∧ (dateOf m').year = year) ∨
      ((dateOf m).month = 2 ∧ (dateOf m).day = 29) ∧
        ∀ leap, Date.isLeap leap = true → ∃ m', f.Matches m' ∧ dateOf m' = ⟨leap, 2, 29⟩ := by
  have hvalid : (dateOf m).Valid := Date.ofDay_valid (dayOf m)
  have hday : f.MatchesDay (dateOf m).toDay := by
    unfold dateOf
    rw [Date.toDay_ofDay]
    exact h.day
  by_cases hstar : f.dayOfMonth.star = true
  · -- only the weekday counts
    rw [matchesDay_iff (.inl hstar) hvalid] at hday
    refine .inl (h.exists_of_weekday year (Date.weekday_lt (dateOf m).toDay) fun d hd hweekday => ?_)
    rw [matchesDay_iff (.inl hstar) hd, hweekday]
    exact ⟨hf.anyDay hstar _ hd.2.2.1 (hd.2.2.2.trans (Date.daysInMonth_le _ _)), hday.2⟩
  · by_cases hweek : f.dayOfWeek.star = true
    · -- only the day of the month counts
      rw [matchesDay_iff (.inr hweek) hvalid] at hday
      have hmoved : ∀ d : Date, d.Valid → d.month = (dateOf m).month → d.day = (dateOf m).day →
          ∃ m', f.Matches m' ∧ dateOf m' = d := by
        intro d hd hsame hsame'
        refine h.moved hd (hsame ▸ h.month) ((matchesDay_iff (.inr hweek) hd).2 ⟨?_, ?_⟩)
        · exact hsame' ▸ hday.1
        · exact hf.anyWeekday hweek _ (Date.weekday_lt _)
      obtain hd | ⟨hfebruary, hleap⟩ := Date.valid_or_leapDay hvalid year
      · obtain ⟨m', hm', hdate⟩ := hmoved _ hd rfl rfl
        exact .inl ⟨m', hm', by rw [hdate]⟩
      · refine .inr ⟨⟨hfebruary, hleap⟩, fun leap hyear => ?_⟩
        exact hmoved _ (Date.leapDay_valid_iff.2 hyear) hfebruary.symm hleap.symm
    · -- a weekday alone suffices
      obtain ⟨w, hw, hallowed⟩ := hf.weekday
      refine .inl (h.exists_of_weekday year hw fun d hd hweekday => ?_)
      unfold MatchesDay
      rw [if_neg (not_or.2 ⟨hstar, hweek⟩), hweekday]
      exact .inr hallowed

/-- What matches at all matches in every year, or on leap days only and then in every leap year. -/
theorem Spelled.yearly_or_onLeapDays (hf : f.Spelled) (h : f.Matches m) :
    (∀ year, ∃ m', f.Matches m' ∧ (dateOf m').year = year) ∨
      f.OnLeapDays ∧ ∀ leap, Date.isLeap leap = true → ∃ m', f.Matches m' ∧ dateOf m' = ⟨leap, 2, 29⟩ := by
  by_cases hyearly : ∀ year, ∃ m', f.Matches m' ∧ (dateOf m').year = year
  · exact .inl hyearly
  · obtain ⟨year, hnone⟩ := not_forall.1 hyearly
    refine .inr ⟨fun k hk => ?_, ((hf.match_year h year).resolve_left hnone).2⟩
    exact ((hf.match_year hk year).resolve_left hnone).1

/-! ## Past the horizon -/

/-- The matching minutes after an instant, however late. -/
def later (f : Fields) (zone : Int) (t : Instant) : Set Int :=
  {m | t < minuteStart zone m ∧ f.Matches m}

/-- The year of the first minute that is searched. -/
def firstSearched (zone : Int) (t : Instant) : Int :=
  (dateOf (minuteAfter zone t)).year

/-- Fields that match on leap days only have their next match on the leap day four years after a century year without
one. That year is the second to the fourth one after the first that is searched. -/
def Overlooks (f : Fields) (zone : Int) (t : Instant) : Prop :=
  f.OnLeapDays ∧ ∃ century m, century % 100 = 0 ∧ century % 400 ≠ 0 ∧
    century - 4 ≤ firstSearched zone t ∧ firstSearched zone t ≤ century - 2 ∧
    IsLeast (f.later zone t) m ∧ dateOf m = ⟨century + 4, 2, 29⟩

lemma exists_isLeast_later (h : (f.later zone t).Nonempty) : ∃ m, IsLeast (f.later zone t) m := by
  obtain ⟨m, hm, hleast⟩ := Int.exists_least_of_bdd
    (P := (· ∈ f.later zone t)) ⟨minuteAfter zone t, fun m hm => lt_minuteStart_iff.1 hm.1⟩ h
  exact ⟨m, hm, hleast⟩

/-- A match in a later year than the first that is searched is a later match. -/
lemma mem_later_of_year (h : f.Matches m) (hyear : firstSearched zone t < (dateOf m).year) : m ∈ f.later zone t := by
  refine ⟨lt_minuteStart_iff.2 ?_, h⟩
  by_contra hearly
  exact (year_dateOf_mono (not_le.1 hearly).le).not_gt hyear

lemma Overlooks.ahead_eq_empty (h : f.Overlooks zone t) : f.ahead zone t = ∅ := by
  obtain ⟨-, century, m, -, -, hlow, hhigh, hleast, hdate⟩ := h
  refine Set.eq_empty_of_forall_notMem fun m' hm' => ?_
  have hyear := year_dateOf_mono (hleast.2 ⟨hm'.1, hm'.2.1⟩)
  have hhorizon : (dateOf m').year ≤ firstSearched zone t + 5 := hm'.2.2
  rw [hdate] at hyear
  dsimp only at hyear
  omega

/-- Where all later matches lie past the horizon, leap days are overlooked. -/
lemma Spelled.overlooks_of_far (hf : f.Spelled) (hleast : IsLeast (f.later zone t) m)
    (hfar : ∀ k ∈ f.later zone t, firstSearched zone t + 5 < (dateOf k).year) : f.Overlooks zone t := by
  obtain hyearly | ⟨honly, hleap⟩ := hf.yearly_or_onLeapDays hleast.1.2
  · obtain ⟨k, hk, hyear⟩ := hyearly (firstSearched zone t + 1)
    have hlate := hfar k (mem_later_of_year hk (by omega))
    omega
  · -- a leap day up to the horizon would not be far
    have hnone : ∀ y, firstSearched zone t < y → y ≤ firstSearched zone t + 5 → Date.isLeap y = false := by
      intro y hlow hhigh
      by_contra hy
      obtain ⟨k, hk, hdate⟩ := hleap y (by simpa using hy)
      have hlate := hfar k (mem_later_of_year hk (by rw [hdate]; exact hlow))
      rw [hdate] at hlate
      exact hhigh.not_gt hlate
    obtain ⟨century, hhundred, hfour, hlow, hhigh, hnext⟩ := Date.century_of_no_leap hnone
    refine ⟨honly, century, m, hhundred, hfour, hlow, hhigh, hleast, ?_⟩
    -- the first match lies between the horizon and the next leap day
    obtain ⟨k, hk, hdate⟩ := hleap (century + 4) hnext
    have hbefore := year_dateOf_mono (hleast.2 (mem_later_of_year hk (by rw [hdate]; dsimp only; omega)))
    have hafter := hfar m hleast.1
    obtain ⟨hmonth, hday⟩ := honly m hleast.1.2
    have hm : dateOf m = ⟨(dateOf m).year, 2, 29⟩ := by rw [← hmonth, ← hday]
    have hvalid : (dateOf m).Valid := Date.ofDay_valid (dayOf m)
    rw [hm, Date.leapDay_valid_iff, Date.isLeap_iff] at hvalid
    rw [hdate] at hbefore
    dsimp only at hbefore
    have hyear : (dateOf m).year = century + 4 := by omega
    rw [hm, hyear]

/-- The horizon hides a match only where leap days are overlooked. -/
theorem Spelled.ahead_eq_empty_iff (hf : f.Spelled) :
    f.ahead zone t = ∅ ↔ f.later zone t = ∅ ∨ f.Overlooks zone t := by
  constructor
  · intro hempty
    rw [or_iff_not_imp_left]
    intro hsome
    obtain ⟨m, hleast⟩ := exists_isLeast_later (Set.nonempty_iff_ne_empty.2 hsome)
    refine hf.overlooks_of_far hleast fun k hk => ?_
    by_contra hnear
    have hfound : k ∈ f.ahead zone t := ⟨hk.1, hk.2, not_lt.1 hnear⟩
    rw [hempty] at hfound
    exact hfound
  · rintro (hnone | hover)
    · refine Set.eq_empty_of_forall_notMem fun m hm => ?_
      have hlater : m ∈ f.later zone t := ⟨hm.1, hm.2.1⟩
      rw [hnone] at hlater
      exact hlater
    · exact hover.ahead_eq_empty

end Fields

/-- No next fire is found exactly if no later minute matches, or if leap days are overlooked. Only then is an expression
given up for good. -/
theorem Expr.never_iff_none_or_overlooked {text : String} {e : Expr} {f : Fields} {t : Instant}
    (hparse : Expr.parse text = .ok e) (hplan : e.plan = .fields f) (hfrom : -200000 ≤ t.date.year)
    (hto : t.date.year ≤ 200000) :
    (e.nextAfter t = .never ↔ (∀ m, t < minuteStart e.zone m → ¬f.Matches m) ∨ f.Overlooks e.zone t) ∧
      ∀ cap last deadline source, e.decision cap last deadline t = .error (.unsatisfiable source) →
        e.nextAfter t = .never := by
  have hz := Expr.zone_of_parse hparse
  have ht : t.Representable := by
    rw [Instant.representable_iff]
    unfold Date.firstYear Date.lastYear
    omega
  have hnone : f.later e.zone t = ∅ ↔ ∀ m, t < minuteStart e.zone m → ¬f.Matches m := by
    rw [Set.eq_empty_iff_forall_notMem]
    exact forall_congr' fun m => not_and
  constructor
  · rw [Expr.nextAfter_fields hplan, Fields.nextAfter_eq_never_iff ht (Fields.nextAfter_ne_beyond hz hfrom hto),
      Fields.coming_eq_image hz hfrom hto, Set.image_eq_empty, (Expr.spelled_of_parse hparse hplan).ahead_eq_empty_iff,
      hnone]
  · intro cap last deadline source h
    have hstart : earliest last deadline t = earliest last deadline t := rfl
    obtain ⟨hr, -⟩ | ⟨hr, -⟩ | ⟨-, -, ⟨hnever, -⟩ | ⟨m, u, -, -, hr⟩⟩ :=
      decision_cases (steps_of_parse hparse) cap hstart
    · simp [hr] at h
    · simp [hr] at h
    · exact hnever
    · simp [hr] at h

/-- From March 2096 on the search does not come to February 2104, although nothing is to come before. -/
theorem Expr.never_iff_none_or_overlooked_leapDays :
    ∃ (f : Fields) (m : Int), Expr.parse "CRON_TZ=+02:00 30 0 29 2 *" = .ok leapDays ∧ leapDays.plan = .fields f ∧
      (Instant.ofSecond 3981398400).date.year = 2096 ∧ leapDays.nextAfter (.ofSecond 3981398400) = .never ∧
      f.OnLeapDays ∧ IsLeast (f.later 7200 (.ofSecond 3981398400)) m ∧ dateOf m = ⟨2104, 2, 29⟩ := by
  have hparse : Expr.parse "CRON_TZ=+02:00 30 0 29 2 *" = .ok leapDays := by decide +kernel
  have hyear : (Instant.ofSecond 3981398400).date.year = 2096 := by decide +kernel
  have hnever : leapDays.nextAfter (.ofSecond 3981398400) = .never := by decide +kernel
  have hstart : Fields.firstSearched leapDays.zone (.ofSecond 3981398400) = 2096 := by decide +kernel
  obtain hnone | ⟨honly, century, m, hhundred, hfour, hlow, hhigh, hleast, hdate⟩ :=
    (never_iff_none_or_overlooked hparse rfl (by rw [hyear]; decide) (by rw [hyear]; decide)).1.1 hnever
  · exact absurd (by decide +kernel) (hnone 70561470 (by decide))
  · have hcentury : century = 2100 := by omega
    rw [hcentury] at hdate
    exact ⟨_, m, hparse, rfl, hyear, hnever, honly, hleast, hdate⟩

/-- From March 2096 on a leap day is given up, although the one in 2104 is to come. -/
theorem Expr.never_before_leapDay :
    ∃ (e : Expr) (f : Fields) (t : Instant) (m : Int), Expr.parse "0 0 29 2 *" = .ok e ∧ e.plan = .fields f ∧
      t = .ofSecond 3981398400 ∧ t.date = ⟨2096, 3, 1⟩ ∧ e.nextAfter t = .never ∧
      e.decision 100 t none t = .error (.unsatisfiable "0 0 29 2 *") ∧
      t < minuteStart e.zone m ∧ f.Matches m ∧ dateOf m = ⟨2104, 2, 29⟩ := by
  refine ⟨⟨"0 0 29 2 *", 0, .fields ⟨⟨[0], false⟩, ⟨[0], false⟩, ⟨[29], false⟩, ⟨[2], false⟩, ⟨List.range 7, true⟩⟩⟩,
    _, .ofSecond 3981398400, 70561440, by decide +kernel, rfl, rfl, by decide +kernel, by decide +kernel,
    by decide +kernel, by decide, by decide +kernel, by decide +kernel⟩

end Cron

end Timetable
