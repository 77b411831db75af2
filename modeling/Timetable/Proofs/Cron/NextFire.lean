import Mathlib.Data.Set.Image
import Timetable.Proofs.Cron.Matching

/-!
# The next fire of a set of fields

A fire is the beginning of a matching minute of the local clock. The next fire after an instant is the earliest
one later than it, as far as the horizon of the search and the calendar reach, and there is none exactly when
there is none up to there. In the years around the present the calendar sets no limit.
-/

namespace Timetable

namespace Cron

/-! ## The calendar by years -/

lemma inCalendar_iff {minute : Int} :
    InCalendar minute ↔
      Date.firstYear ≤ (dateOf minute).year ∧ (dateOf minute).year ≤ Date.lastYear := by
  have hlow := @Date.le_year_ofDay_iff Date.firstYear (minute / 1440)
  have hhigh := @Date.le_year_ofDay_iff (Date.lastYear + 1) (minute / 1440)
  unfold InCalendar Instant.Representable Instant.ofSecond Instant.firstSecond Instant.endSecond
    dateOf dayOf
  dsimp only
  omega

lemma InCalendar.between {a b m : Int} (ha : InCalendar a) (hb : InCalendar b) (ham : a ≤ m)
    (hmb : m ≤ b) : InCalendar m := by
  unfold InCalendar Instant.Representable Instant.ofSecond at *
  dsimp only at *
  omega

/-! ## Minutes and instants -/

/-- The minute of the local clock that holds an instant. -/
def localMinute (zone : Int) (t : Instant) : Int :=
  (t.second + zone) / 60

def localYear (zone : Int) (t : Instant) : Int :=
  (dateOf (localMinute zone t)).year

/-- The last local year that a search from an instant looks at. -/
def horizon (zone : Int) (t : Instant) : Int :=
  (dateOf (minuteAfter zone t)).year + horizonYears

lemma minuteAfter_eq (zone : Int) (t : Instant) : minuteAfter zone t = localMinute zone t + 1 := rfl

@[simp]
lemma localMinute_minuteStart (zone m : Int) : localMinute zone (minuteStart zone m) = m := by
  unfold localMinute minuteStart Instant.ofSecond
  dsimp only
  omega

lemma lt_minuteStart_iff {zone m : Int} {t : Instant} :
    t < minuteStart zone m ↔ minuteAfter zone t ≤ m := by
  rw [Instant.lt_def]
  unfold minuteStart minuteAfter Instant.ofSecond
  dsimp only
  omega

lemma InCalendar.minuteAfter {zone m : Int} {t : Instant} (ht : InCalendar (localMinute zone t))
    (hm : InCalendar m) (hlt : t < minuteStart zone m) : InCalendar (minuteAfter zone t) := by
  refine ht.between hm ?_ (lt_minuteStart_iff.1 hlt)
  rw [minuteAfter_eq]
  omega

lemma minuteStart_le_iff {zone m m' : Int} : minuteStart zone m ≤ minuteStart zone m' ↔ m ≤ m' := by
  rw [Instant.le_def]
  unfold minuteStart Instant.ofSecond
  dsimp only
  omega

lemma localMinute_mono {zone : Int} {t u : Instant} (h : t ≤ u) :
    localMinute zone t ≤ localMinute zone u := by
  rw [Instant.le_def] at h
  unfold localMinute
  omega

lemma localYear_mono {zone : Int} {t u : Instant} (h : t ≤ u) : localYear zone t ≤ localYear zone u :=
  Fields.year_dateOf_mono (localMinute_mono h)

lemma horizon_mono {zone : Int} {t u : Instant} (h : t ≤ u) : horizon zone t ≤ horizon zone u := by
  have hminute : localMinute zone t ≤ localMinute zone u := localMinute_mono h
  have hyear := Fields.year_dateOf_mono (show minuteAfter zone t ≤ minuteAfter zone u by
    rw [minuteAfter_eq, minuteAfter_eq]
    omega)
  unfold horizon
  omega

lemma localYear_lt_horizon (zone : Int) (t : Instant) : localYear zone t < horizon zone t := by
  have hyear := Fields.year_dateOf_mono (show localMinute zone t ≤ minuteAfter zone t by
    rw [minuteAfter_eq]
    omega)
  unfold localYear horizon horizonYears
  omega

namespace Fields
variable {f : Fields} {zone : Int} {t u : Instant}

/-- The matching minutes after an instant that lie within the horizon of a search. -/
def ahead (f : Fields) (zone : Int) (t : Instant) : Set Int :=
  {m | t < minuteStart zone m ∧ f.Matches m ∧ (dateOf m).year ≤ horizon zone t}

/-- The fires in the calendar: the beginnings of matching minutes that the calendar holds, on the local clock
and in UTC. -/
def fires (f : Fields) (zone : Int) : Set Instant :=
  {u | u.Representable ∧ ∃ m, f.Matches m ∧ InCalendar m ∧ u = minuteStart zone m}

/-- The fires after an instant that lie within the horizon of a search. -/
def coming (f : Fields) (zone : Int) (t : Instant) : Set Instant :=
  {u | u ∈ f.fires zone ∧ t < u ∧ localYear zone u ≤ horizon zone t}

lemma mem_coming_iff :
    u ∈ f.coming zone t ↔
      u.Representable ∧ ∃ m ∈ f.ahead zone t, InCalendar m ∧ u = minuteStart zone m := by
  constructor
  · rintro ⟨⟨hu, m, hm, hin, rfl⟩, hlt, hyear⟩
    rw [localYear, localMinute_minuteStart] at hyear
    exact ⟨hu, m, ⟨hlt, hm, hyear⟩, hin, rfl⟩
  · rintro ⟨hu, m, ⟨hlt, hm, hyear⟩, hin, rfl⟩
    refine ⟨⟨hu, m, hm, hin, rfl⟩, hlt, ?_⟩
    rwa [localYear, localMinute_minuteStart]

lemma ahead_eq_matchesUpTo (f : Fields) (zone : Int) (t : Instant) :
    f.ahead zone t = f.matchesUpTo (horizon zone t) (minuteAfter zone t) := by
  ext m
  simp only [ahead, matchesUpTo, Set.mem_ofPred_eq, lt_minuteStart_iff]

lemma isFirst_search (f : Fields) (zone : Int) (t : Instant) :
    IsFirst (f.ahead zone t) (f.search (horizon zone t) searchSteps (minuteAfter zone t)) := by
  rw [ahead_eq_matchesUpTo]
  exact (f.searches_horizon (minuteAfter zone t)).isFirst

section
variable (hin : ¬(¬InCalendar (localMinute zone t) ∨ ¬InCalendar (minuteAfter zone t)))
include hin

lemma nextAfter_of_search_none
    (hs : f.search (horizon zone t) searchSteps (minuteAfter zone t) = none) :
    f.nextAfter zone t = .never := by
  rw [horizon] at hs
  unfold nextAfter
  dsimp only
  rw [minuteAfter_eq, Int.add_sub_cancel, ← minuteAfter_eq, if_neg hin, hs]

lemma nextAfter_of_search_some {m : Int}
    (hs : f.search (horizon zone t) searchSteps (minuteAfter zone t) = some m) :
    f.nextAfter zone t =
      if ¬InCalendar m then if f.allowsLastDay then .beyond else .never
      else if (minuteStart zone m).Representable then .at (minuteStart zone m)
      else .never := by
  rw [horizon] at hs
  unfold nextAfter
  dsimp only
  rw [minuteAfter_eq, Int.add_sub_cancel, ← minuteAfter_eq, if_neg hin, hs]

end

/-- What the search finds, and what the calendar makes of it. -/
theorem nextAfter_cases (f : Fields) (zone : Int) (t : Instant) :
    (¬InCalendar (localMinute zone t) ∨ ¬InCalendar (minuteAfter zone t)) ∧
        f.nextAfter zone t = .beyond ∨
      InCalendar (localMinute zone t) ∧ InCalendar (minuteAfter zone t) ∧
        (f.ahead zone t = ∅ ∧ f.nextAfter zone t = .never ∨
          ∃ m, IsLeast (f.ahead zone t) m ∧
            (¬InCalendar m ∧ f.nextAfter zone t = (if f.allowsLastDay then .beyond else .never) ∨
              InCalendar m ∧ f.nextAfter zone t =
                (if (minuteStart zone m).Representable then .at (minuteStart zone m) else .never))) := by
  have hfirst := isFirst_search f zone t
  by_cases hin : ¬InCalendar (localMinute zone t) ∨ ¬InCalendar (minuteAfter zone t)
  · refine .inl ⟨hin, ?_⟩
    unfold nextAfter
    dsimp only
    rw [minuteAfter_eq, Int.add_sub_cancel, ← minuteAfter_eq, if_pos hin]
  · have hin' := hin
    rw [not_or, not_not, not_not] at hin'
    refine .inr ⟨hin'.1, hin'.2, ?_⟩
    cases hs : f.search (horizon zone t) searchSteps (minuteAfter zone t) with
    | none =>
      rw [hs] at hfirst
      exact .inl ⟨hfirst, nextAfter_of_search_none hin hs⟩
    | some m =>
      rw [hs] at hfirst
      have hnext := nextAfter_of_search_some hin hs
      refine .inr ⟨m, hfirst, ?_⟩
      by_cases hm : InCalendar m
      · exact .inr ⟨hm, hnext.trans (if_neg (not_not.2 hm))⟩
      · exact .inl ⟨hm, hnext.trans (if_pos hm)⟩

/-- A fire is found where the calendar holds the present and the first matching minute ahead. -/
theorem nextAfter_eq_minute_iff :
    f.nextAfter zone t = .at u ↔
      InCalendar (localMinute zone t) ∧ ∃ m, IsLeast (f.ahead zone t) m ∧ InCalendar m ∧
        (minuteStart zone m).Representable ∧ u = minuteStart zone m := by
  have hcases := nextAfter_cases f zone t
  constructor
  · intro h
    obtain ⟨-, hnext⟩ | ⟨hin, -, ⟨-, hnext⟩ | ⟨m, hleast, ⟨-, hnext⟩ | ⟨hm, hnext⟩⟩⟩ := hcases
    · simp [hnext] at h
    · simp [hnext] at h
    · rw [hnext] at h
      split_ifs at h
    · rw [hnext] at h
      split_ifs at h with hfire
      exact ⟨hin, m, hleast, hm, hfire, (Upcoming.at.inj h).symm⟩
  · rintro ⟨hin, m, hleast, hm, hfire, rfl⟩
    obtain ⟨hout, -⟩ | ⟨-, -, ⟨hempty, -⟩ | ⟨m', hleast', ⟨hm', -⟩ | ⟨-, hnext⟩⟩⟩ := hcases
    · exact absurd hout (by simp [hin, hin.minuteAfter hm hleast.1.1])
    · exact absurd hleast.1 (by simp [hempty])
    · exact absurd (hleast'.unique hleast ▸ hm) hm'
    · rw [hnext, hleast'.unique hleast, if_pos hfire]

/-- A fire that is found is the first one to come. -/
theorem isLeast_coming_of_nextAfter (h : f.nextAfter zone t = .at u) :
    IsLeast (f.coming zone t) u := by
  obtain ⟨-, m, hleast, hm, hfire, rfl⟩ := nextAfter_eq_minute_iff.1 h
  refine ⟨mem_coming_iff.2 ⟨hfire, m, hleast.1, hm, rfl⟩, fun v hv => ?_⟩
  obtain ⟨-, m', hm', -, rfl⟩ := mem_coming_iff.1 hv
  exact minuteStart_le_iff.2 (hleast.2 hm')

/-- Where no fire is found, none is to come: what is left of the matching minutes lies past the end of the
calendar. -/
theorem coming_eq_empty_of_nextAfter (ht : t.Representable) (h : f.nextAfter zone t = .never) :
    f.coming zone t = ∅ := by
  refine Set.eq_empty_of_forall_notMem fun v hv => ?_
  obtain ⟨hv, m', hm', hin', rfl⟩ := mem_coming_iff.1 hv
  obtain ⟨-, hnext⟩ | ⟨-, hstart, ⟨hempty, -⟩ | ⟨m, hleast, ⟨hm, -⟩ | ⟨hm, hnext⟩⟩⟩ :=
    nextAfter_cases f zone t
  · simp [hnext] at h
  · rw [hempty] at hm'
    exact hm'
  · have hle := hleast.2 hm'
    have hlate := lt_minuteStart_iff.1 hleast.1.1
    unfold InCalendar Instant.Representable Instant.ofSecond at *
    dsimp only at *
    omega
  · rw [hnext] at h
    split_ifs at h with hfire
    have hle : minuteStart zone m ≤ minuteStart zone m' := minuteStart_le_iff.2 (hleast.2 hm')
    have hlate := hleast.1.1
    rw [Instant.le_def] at hle
    rw [Instant.lt_def] at hlate
    unfold Instant.Representable at *
    omega

/-- A search is aborted only where it begins before the calendar or its horizon lies past the end. -/
theorem near_end_of_nextAfter (h : f.nextAfter zone t = .beyond) :
    localYear zone t < Date.firstYear ∨ Date.lastYear < horizon zone t := by
  have hyears := localYear_lt_horizon zone t
  have hstart : (dateOf (minuteAfter zone t)).year ≤ horizon zone t := by
    unfold horizon horizonYears
    omega
  have hlater := year_dateOf_mono (show localMinute zone t ≤ minuteAfter zone t by
    rw [minuteAfter_eq]
    omega)
  unfold localYear at *
  obtain ⟨hin | hin, -⟩ | ⟨-, -, ⟨-, hnext⟩ | ⟨m, hleast, ⟨hm, -⟩ | ⟨-, hnext⟩⟩⟩ :=
    nextAfter_cases f zone t
  · rw [inCalendar_iff] at hin
    omega
  · rw [inCalendar_iff] at hin
    omega
  · simp [hnext] at h
  · have hfound := year_dateOf_mono (lt_minuteStart_iff.1 hleast.1.1)
    have hyear := hleast.1.2.2
    rw [inCalendar_iff] at hm
    omega
  · rw [hnext] at h
    split_ifs at h

section
variable (ht : t.Representable) (hne : f.nextAfter zone t ≠ .beyond)
include ht hne

theorem nextAfter_eq_at_iff : f.nextAfter zone t = .at u ↔ IsLeast (f.coming zone t) u := by
  refine ⟨isLeast_coming_of_nextAfter, fun hu => ?_⟩
  cases hnext : f.nextAfter zone t with
  | «at» v => rw [(isLeast_coming_of_nextAfter hnext).unique hu]
  | never =>
    have hu' := hu.1
    rw [coming_eq_empty_of_nextAfter ht hnext] at hu'
    exact hu'.elim
  | beyond => exact absurd hnext hne

theorem nextAfter_eq_never_iff : f.nextAfter zone t = .never ↔ f.coming zone t = ∅ := by
  refine ⟨coming_eq_empty_of_nextAfter ht, fun hempty => ?_⟩
  cases hnext : f.nextAfter zone t with
  | «at» v =>
    have hv := (isLeast_coming_of_nextAfter hnext).1
    rw [hempty] at hv
    exact hv.elim
  | never => rfl
  | beyond => exact absurd hnext hne

end

/-- Until its time comes the next fire stays the next one. -/
theorem nextAfter_eq_of_lt {p : Instant} (h : f.nextAfter zone t = .at u) (hle : t ≤ p)
    (hlt : p < u) : f.nextAfter zone p = .at u := by
  obtain ⟨hin, m, hleast, hm, hfire, rfl⟩ := nextAfter_eq_minute_iff.1 h
  have hbefore : localMinute zone t ≤ localMinute zone p := localMinute_mono hle
  have hafter : localMinute zone p + 1 ≤ m := lt_minuteStart_iff.1 hlt
  refine nextAfter_eq_minute_iff.2
    ⟨hin.between hm hbefore (by omega), m, ⟨?_, fun k hk => ?_⟩, hm, hfire, rfl⟩
  · exact ⟨hlt, hleast.1.2.1, hleast.1.2.2.trans (horizon_mono hle)⟩
  · by_contra hlate
    have hkm : k ≤ m := by omega
    have hyear := (year_dateOf_mono hkm).trans hleast.1.2.2
    exact hlate (hleast.2 ⟨hle.trans_lt hk.1, hk.2.1, hyear⟩)

/-- Where a search finds a fire, none that begins earlier in the calendar is aborted. -/
theorem nextAfter_ne_beyond_of_le {start p : Instant} (hstart : f.nextAfter zone start ≠ .beyond)
    (h : f.nextAfter zone t = .at u) (hle : start ≤ p) (hle' : p ≤ t) :
    f.nextAfter zone p ≠ .beyond := by
  have hbefore : localMinute zone start ≤ localMinute zone p := localMinute_mono hle
  have hafter : localMinute zone p ≤ localMinute zone t := localMinute_mono hle'
  obtain ⟨hend, m, hleast, hm, -⟩ := nextAfter_eq_minute_iff.1 h
  have hin : InCalendar (localMinute zone start) := by
    by_contra hout
    obtain ⟨-, hnext⟩ | ⟨hin, -⟩ := nextAfter_cases f zone start
    · exact hstart hnext
    · exact hout hin
  have hp : InCalendar (localMinute zone p) := hin.between hend hbefore hafter
  have hp' : InCalendar (minuteAfter zone p) := hp.minuteAfter hm (hle'.trans_lt hleast.1.1)
  intro hbeyond
  obtain ⟨hout, -⟩ | ⟨-, -, ⟨-, hnext⟩ | ⟨m', hleast', ⟨hm', -⟩ | ⟨-, hnext⟩⟩⟩ :=
    nextAfter_cases f zone p
  · exact absurd hout (by simp [hp, hp'])
  · simp [hnext] at hbeyond
  · -- the minute found from `t` on would be found from `p` on too
    have hlate : m < m' := by
      by_contra hle
      exact hm' (hp'.between hm (lt_minuteStart_iff.1 hleast'.1.1) (by omega))
    have hyear := (year_dateOf_mono hlate.le).trans hleast'.1.2.2
    have hmem : m ∈ f.ahead zone p := ⟨hle'.trans_lt hleast.1.1, hleast.1.2.1, hyear⟩
    have hle := hleast'.2 hmem
    omega
  · rw [hnext] at hbeyond
    split_ifs at hbeyond

/-! ## Far from the ends of the calendar -/

section
variable (hz : -86400 < zone ∧ zone < 86400)
include hz

/-- The local year of a minute and the year of its beginning in UTC differ by one at most. -/
lemma year_minuteStart (m : Int) :
    (dateOf m).year ≤ (minuteStart zone m).date.year + 1 ∧
      (minuteStart zone m).date.year ≤ (dateOf m).year + 1 := by
  constructor
  · refine Date.year_ofDay_le_succ ?_
    unfold dayOf minuteStart Instant.ofSecond
    dsimp only
    omega
  · refine Date.year_ofDay_le_succ ?_
    unfold dayOf minuteStart Instant.ofSecond
    dsimp only
    omega

lemma localYear_near (t : Instant) :
    t.date.year ≤ localYear zone t + 1 ∧ (dateOf (minuteAfter zone t)).year ≤ t.date.year + 1 := by
  constructor
  · refine Date.year_ofDay_le_succ ?_
    unfold dayOf localMinute
    omega
  · refine Date.year_ofDay_le_succ ?_
    unfold dayOf minuteAfter
    omega

variable (hfrom : -200000 ≤ t.date.year) (hto : t.date.year ≤ 200000)
include hfrom hto

lemma coming_eq_image : f.coming zone t = minuteStart zone '' f.ahead zone t := by
  obtain ⟨hlow, hhigh⟩ := localYear_near hz t
  ext u
  rw [mem_coming_iff]
  constructor
  · rintro ⟨-, m, hm, -, rfl⟩
    exact ⟨m, hm, rfl⟩
  · rintro ⟨m, hm, rfl⟩
    obtain ⟨hlocal, hutc⟩ := year_minuteStart hz m
    have hyear := hm.2.2
    have hlater : localYear zone t ≤ (dateOf m).year := by
      have hle := lt_minuteStart_iff.1 hm.1
      rw [minuteAfter_eq] at hle
      exact year_dateOf_mono (by omega)
    unfold horizon horizonYears at hyear
    refine ⟨Instant.representable_iff.2 ?_, m, hm, inCalendar_iff.2 ?_, rfl⟩
    · unfold Date.firstYear Date.lastYear
      omega
    · unfold Date.firstYear Date.lastYear
      omega

lemma nextAfter_ne_beyond : f.nextAfter zone t ≠ .beyond := by
  obtain ⟨hlow, hhigh⟩ := localYear_near hz t
  intro h
  obtain hend | hend := near_end_of_nextAfter h
  · unfold Date.firstYear at hend
    omega
  · unfold Date.lastYear horizon horizonYears at hend
    omega

end

end Fields

/-! ## Expressions -/

lemma parseZone_lt {raw : List Char} {zone : Int} (h : parseZone raw = .ok zone) :
    -86400 < zone ∧ zone < 86400 := by
  unfold parseZone at h
  dsimp only at h
  rw [ite_eq_iff] at h
  obtain ⟨-, h⟩ | ⟨-, h⟩ := h
  · obtain rfl := Except.ok.inj h
    decide
  · split at h
    · simp at h
    · rw [ite_eq_iff] at h
      obtain ⟨-, h⟩ | ⟨-, h⟩ := h
      · simp at h
      · split at h
        · split_ifs at h with hin
          all_goals
            simp only [Bool.and_eq_true, decide_eq_true_eq] at hin
            obtain rfl := Except.ok.inj h
            omega
        · simp at h

lemma splitZone_lt {source body : List Char} {zone : Int}
    (h : splitZone source = .ok (zone, body)) : -86400 < zone ∧ zone < 86400 := by
  unfold splitZone at h
  split at h
  · obtain ⟨rfl, -⟩ := Prod.mk.inj (Except.ok.inj h)
    decide
  · rename_i rest _
    dsimp only at h
    cases hz : parseZone ((Text.splitFirst Text.isBlank rest).getD (rest, [])).1 with
    | error err => simp [hz, Except.map] at h
    | ok zone' =>
      rw [hz] at h
      obtain ⟨rfl, -⟩ := Prod.mk.inj (Except.ok.inj h)
      exact parseZone_lt hz

/-- Zones are less than a day away from UTC. -/
theorem Expr.zone_of_parse {text : String} {e : Expr} (h : Expr.parse text = .ok e) :
    -86400 < e.zone ∧ e.zone < 86400 := by
  unfold Expr.parse at h
  simp only [bind, Except.bind] at h
  split_ifs at h
  split at h
  · simp at h
  · rename_i zoned hsplit
    have hzone : e.zone = zoned.1 := by
      split at h
      · simp at h
      · split at h
        · simp at h
        · rw [← Except.ok.inj h]
      · split at h
        · simp at h
        · rw [← Except.ok.inj h]
    rw [hzone]
    exact splitZone_lt hsplit

lemma Expr.nextAfter_fields {e : Expr} {f : Fields} (hplan : e.plan = .fields f) (t : Instant) :
    e.nextAfter t = f.nextAfter e.zone t := by
  unfold Expr.nextAfter
  rw [hplan]

/-- The next fire of five fields is the earliest matching minute after an instant, up to the end of the fifth
year after that of the first minute searched, and there is none exactly when no such minute exists. The search
comes to its own end. -/
theorem Expr.nextAfter_earliest {text : String} {e : Expr} (hparse : Expr.parse text = .ok e)
    {f : Fields} (hplan : e.plan = .fields f) {t : Instant} (hfrom : -200000 ≤ t.date.year)
    (hto : t.date.year ≤ 200000) :
    (∀ u, e.nextAfter t = .at u ↔ IsLeast (minuteStart e.zone '' f.ahead e.zone t) u) ∧
      (e.nextAfter t = .never ↔ f.ahead e.zone t = ∅) ∧ e.nextAfter t ≠ .beyond ∧
      f.Searches (horizon e.zone t) (minuteAfter e.zone t)
        (f.search (horizon e.zone t) searchSteps (minuteAfter e.zone t)) := by
  have hz := Expr.zone_of_parse hparse
  have ht : t.Representable := by
    rw [Instant.representable_iff]
    unfold Date.firstYear Date.lastYear
    omega
  have hne := Fields.nextAfter_ne_beyond (f := f) hz hfrom hto
  have hcoming := Fields.coming_eq_image (f := f) hz hfrom hto
  rw [Expr.nextAfter_fields hplan]
  refine ⟨fun u => ?_, ?_, hne, f.searches_horizon _⟩
  · rw [← hcoming, Fields.nextAfter_eq_at_iff ht hne]
  · rw [Fields.nextAfter_eq_never_iff ht hne, hcoming, Set.image_eq_empty]

/-- Half past midnight on leap days, two hours east of UTC. -/
def leapDays : Expr :=
  ⟨"CRON_TZ=+02:00 30 0 29 2 *", 7200,
    .fields ⟨⟨[30], false⟩, ⟨[0], false⟩, ⟨[29], false⟩, ⟨[2], false⟩, ⟨List.range 7, true⟩⟩⟩

/-- From a leap second at the end of 2023 the search comes to 2024-02-28T22:30:00Z. -/
theorem Expr.nextAfter_earliest_leapDays :
    ∃ (f : Fields) (t : Instant), Expr.parse "CRON_TZ=+02:00 30 0 29 2 *" = .ok leapDays ∧
      leapDays.plan = .fields f ∧ t.isLeap ∧ -200000 ≤ t.date.year ∧ t.date.year ≤ 200000 ∧
      leapDays.nextAfter t = .at (.ofSecond 1709159400) ∧
      IsLeast (minuteStart 7200 '' f.ahead 7200 t) (.ofSecond 1709159400) := by
  have hparse : Expr.parse "CRON_TZ=+02:00 30 0 29 2 *" = .ok leapDays := by decide +kernel
  let t : Instant := ⟨1704067199, 1500000000, by decide⟩
  have hfrom : -200000 ≤ t.date.year := by decide +kernel
  have hto : t.date.year ≤ 200000 := by decide +kernel
  have hnext : leapDays.nextAfter t = .at (.ofSecond 1709159400) := by decide +kernel
  exact ⟨_, t, hparse, rfl, by decide, hfrom, hto, hnext,
    ((Expr.nextAfter_earliest hparse rfl hfrom hto).1 _).1 hnext⟩

end Cron

end Timetable
