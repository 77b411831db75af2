import Timetable.Proofs.Calendar.Rfc3339
import Timetable.Proofs.Cron.Grammar
import Timetable.Proofs.Cron.MissedFires
import Timetable.Proofs.Cron.Periods

/-!
# Where the arithmetic of expressions ends

Three limits are not guarded where an expression is read and evaluated: a period of more seconds than a span
holds, a stride that leads past the largest word, and a period that leads past the end of the calendar. Each is
reached by some text; the first two abort reading it and the third looking for its fires. The calendar of five fields is
far from its ends in the years 0 to 9999.
-/

namespace Timetable

namespace Instant
variable {t : Instant}

lemma InFourDigitYear.second_bounds (h : t.InFourDigitYear) :
    86400 * Date.toDay ⟨0, 1, 1⟩ ≤ t.second ∧ t.second < 86400 * Date.toDay ⟨10000, 1, 1⟩ := by
  have hlow := @Date.le_year_ofDay_iff 0 (t.second / 86400)
  have hhigh := @Date.le_year_ofDay_iff 10000 (t.second / 86400)
  unfold InFourDigitYear date at h
  omega

lemma InFourDigitYear.representable (h : t.InFourDigitYear) : t.Representable := by
  obtain ⟨hlow, hhigh⟩ := h
  rw [representable_iff]
  unfold Date.firstYear Date.lastYear
  omega

end Instant

namespace Cron
open Text

/-! ## What a text asks for -/

/-- A text is a period of so many seconds, whether they can be held or not. -/
def AsksEvery (text : String) (period : Nat) : Prop :=
  ∃ zone body name c rest, splitZone (trim text.toList) = .ok (zone, body) ∧ trim body = '@' :: name ∧
    after? "every".toList name = some (c :: rest) ∧ isBlank c = true ∧
    sumDuration 0 [] (trim rest) = some period

/-- After its zone a text has five fields, and the first part that does not fit has a stride that leaves the word. -/
def Overruns (text : String) : Prop :=
  ∃ zone body, splitZone (trim text.toList) = .ok (zone, body) ∧ (trim body).head? ≠ some '@' ∧
    OverrunsBody (trim body)

/-- A text asks for a period that cannot be held, of seconds or between the values of a field. -/
def Overlong (text : String) : Prop :=
  (∃ n, AsksEvery text n ∧ longestPeriod < n) ∨ Overruns text

/-! ## Reading a period -/

lemma parseZone_holds (zone : List Char) : Holds (parseZone zone) := by
  unfold parseZone
  dsimp only
  refine .ite (.ok _) ?_
  split
  · exact .error nofun
  · refine .ite (.error nofun) ?_
    split
    · exact .ite (.ok _) (.error nofun)
    · exact .error nofun

lemma splitZone_holds (source : List Char) : Holds (splitZone source) := by
  unfold splitZone
  split
  · exact .ok _
  · exact .map (parseZone_holds _) _

lemma descriptorFields_of_every {name rest : List Char} (h : after? "every".toList name = some rest) :
    descriptorFields (String.ofList name) = none := by
  have hname : name = "every".toList ++ rest := by
    unfold after? at h
    split_ifs at h with hprefix
    obtain ⟨t, rfl⟩ := List.isPrefixOf_iff_prefix.1 hprefix
    rw [← Option.some.inj h, List.drop_left]
  unfold descriptorFields
  split
  all_goals first
    | rfl
    | rename_i heq
      have hlist := congrArg String.toList heq
      rw [String.toList_ofList, hname] at hlist
      simp at hlist

/-- A descriptor holds a period, or it fails on one that cannot be held, exactly if it names one. -/
lemma parseDescriptor_of_every {name rest : List Char} {c : Char} {n : Nat}
    (hname : after? "every".toList name = some (c :: rest)) (hc : isBlank c = true)
    (hsum : sumDuration 0 [] (trim rest) = some n) :
    parseDescriptor name = if n ≤ longestPeriod then .ok (.every n) else .error .overlongPeriod := by
  unfold parseDescriptor
  rw [descriptorFields_of_every hname]
  dsimp only
  rw [hname]
  dsimp only
  rw [if_pos hc]
  unfold parseDuration
  rw [hsum]
  dsimp only
  split_ifs <;> rfl

lemma descriptorFields_holds {name body : String} (h : descriptorFields name = some body) :
    Holds (parseFields body.toList) := by
  unfold Holds
  unfold descriptorFields at h
  split at h
  all_goals first
    | obtain rfl := Option.some.inj h
      decide +kernel
    | simp at h

/-- A descriptor that names no period does not fail on one and does not hold one. -/
lemma parseDescriptor_cases (name : List Char) :
    (∃ c rest n, after? "every".toList name = some (c :: rest) ∧ isBlank c = true ∧
        sumDuration 0 [] (trim rest) = some n) ∨
      Holds (parseDescriptor name) ∧ ∀ n, parseDescriptor name ≠ .ok (.every n) := by
  unfold parseDescriptor
  split
  · rename_i body hbody
    exact .inr ⟨.map (descriptorFields_holds hbody) _, fun n => map_fields_ne_every⟩
  · split
    · rename_i c rest hname
      by_cases hc : isBlank c = true
      · rw [if_pos hc]
        unfold parseDuration
        cases hsum : sumDuration 0 [] (trim rest) with
        | none => exact .inr ⟨.error nofun, nofun⟩
        | some n => exact .inl ⟨c, rest, n, hname, hc, hsum⟩
      · rw [if_neg hc]
        exact .inr ⟨.error nofun, nofun⟩
    · exact .inr ⟨.error nofun, nofun⟩

/-- What is read after the zone. -/
def parsePlan : List Char → Except CronError Plan
  | [] => .error .empty
  | '@' :: name => parseDescriptor name
  | body => (parseFields body).map .fields

lemma parse_eq (text : String) :
    Expr.parse text =
      (splitZone (trim text.toList)).bind fun zoned =>
        (parsePlan (trim zoned.2)).map fun plan => ⟨String.ofList (trim text.toList), zoned.1, plan⟩ := by
  unfold Expr.parse parsePlan
  simp only [bind, Except.bind]
  by_cases hempty : (trim text.toList).isEmpty
  · -- an empty text has no zone before it and nothing after it
    rw [if_pos hempty, List.isEmpty_iff.1 hempty]
    rfl
  · simp only [hempty]
    cases splitZone (trim text.toList) with
    | error e => rfl
    | ok zoned =>
      dsimp only
      cases hplan : trim zoned.2 with
      | nil => rfl
      | cons c name =>
        by_cases hc : c = '@'
        · subst hc
          cases hd : parseDescriptor name <;> simp [hd, Except.map]
        · cases hf : parseFields (c :: name) <;> simp [hc, hf, Except.map]

lemma parse_of_asks {text : String} {n : Nat} (h : AsksEvery text n) :
    ∃ zone, Expr.parse text =
      if n ≤ longestPeriod then .ok ⟨String.ofList (trim text.toList), zone, .every n⟩
      else .error .overlongPeriod := by
  obtain ⟨zone, body, name, c, rest, hsplit, hbody, hname, hc, hsum⟩ := h
  have hplan : parsePlan (trim body) = if n ≤ longestPeriod then .ok (.every n) else .error .overlongPeriod := by
    rw [hbody]
    exact parseDescriptor_of_every hname hc hsum
  refine ⟨zone, ?_⟩
  rw [parse_eq, hsplit]
  change (parsePlan (trim body)).map _ = _
  rw [hplan]
  split_ifs <;> rfl

lemma map_fields_eq_overlong_iff {x : Except CronError Fields} :
    x.map Plan.fields = .error .overlongPeriod ↔ x = .error .overlongPeriod := by
  cases x with
  | error e => simp [Except.map]
  | ok fields => simp [Except.map]

lemma parsePlan_of_overruns {body : List Char} (hat : body.head? ≠ some '@') (hover : OverrunsBody body) :
    parsePlan body = .error .overlongPeriod := by
  have hfields : (parseFields body).map Plan.fields = .error .overlongPeriod :=
    map_fields_eq_overlong_iff.2 (parseFields_eq_overlong_iff.2 hover)
  unfold parsePlan
  split
  · simp [OverrunsBody, fieldTexts, Field.all] at hover
  · simp at hat
  · exact hfields

/-- What names no period is not read as one, and it aborts reading only if it overruns. -/
lemma parsePlan_cases (body : List Char) :
    (∃ name c rest n, body = '@' :: name ∧ after? "every".toList name = some (c :: rest) ∧
        isBlank c = true ∧ sumDuration 0 [] (trim rest) = some n) ∨
      (parsePlan body = .error .overlongPeriod → body.head? ≠ some '@' ∧ OverrunsBody body) ∧
        ∀ n, parsePlan body ≠ .ok (.every n) := by
  unfold parsePlan
  split
  · exact .inr ⟨nofun, nofun⟩
  · rename_i name
    obtain ⟨c, rest, n, hname, hc, hsum⟩ | ⟨hholds, hnone⟩ := parseDescriptor_cases name
    · exact .inl ⟨name, c, rest, n, rfl, hname, hc, hsum⟩
    · exact .inr ⟨fun h => absurd h hholds, hnone⟩
  · rename_i hempty hat
    refine .inr ⟨fun h => ⟨fun hhead => ?_, ?_⟩, fun n => map_fields_ne_every⟩
    · obtain ⟨name, rfl⟩ := List.head?_eq_some_iff.1 hhead
      exact hat name rfl
    · exact parseFields_eq_overlong_iff.1 (map_fields_eq_overlong_iff.1 h)

lemma parse_of_overruns {text : String} (h : Overruns text) : Expr.parse text = .error .overlongPeriod := by
  obtain ⟨zone, body, hsplit, hat, hover⟩ := h
  rw [parse_eq, hsplit]
  change (parsePlan (trim body)).map _ = _
  rw [parsePlan_of_overruns hat hover]
  rfl

lemma parse_cases (text : String) :
    (∃ n, AsksEvery text n) ∨
      (Expr.parse text = .error .overlongPeriod → Overruns text) ∧
        ∀ e, Expr.parse text = .ok e → ∀ n, e.plan ≠ .every n := by
  rw [parse_eq]
  cases hsplit : splitZone (trim text.toList) with
  | error e =>
    refine .inr ⟨fun h => ?_, nofun⟩
    obtain rfl := Except.error.inj h
    exact absurd hsplit (splitZone_holds _)
  | ok zoned =>
    obtain ⟨name, c, rest, n, hbody, hname, hc, hsum⟩ | ⟨hover, hnone⟩ := parsePlan_cases (trim zoned.2)
    · exact .inl ⟨n, zoned.1, zoned.2, name, c, rest, hsplit, hbody, hname, hc, hsum⟩
    · right
      cases hplan : parsePlan (trim zoned.2) with
      | error e =>
        refine ⟨fun h => ?_, fun e' he' => by simp [Except.bind, hplan, Except.map] at he'⟩
        obtain rfl : e = .overlongPeriod := by simpa [Except.bind, hplan, Except.map] using h
        obtain ⟨hat, hbody⟩ := hover hplan
        exact ⟨zoned.1, zoned.2, hsplit, hat, hbody⟩
      | ok plan =>
        refine ⟨fun h => by simp [Except.bind, hplan, Except.map] at h, fun e he n hn => ?_⟩
        simp only [Except.bind, hplan, Except.map, Except.ok.injEq] at he
        obtain rfl := he
        exact hnone n (hplan.trans (congrArg _ hn))

/-- Reading a text is aborted exactly if it asks for a period that cannot be held. -/
theorem parse_eq_overlong_iff (text : String) : Expr.parse text = .error .overlongPeriod ↔ Overlong text := by
  constructor
  · intro h
    obtain ⟨n, hn⟩ | ⟨hover, -⟩ := parse_cases text
    · obtain ⟨zone, hparse⟩ := parse_of_asks hn
      rw [hparse] at h
      split_ifs at h with hle
      exact .inl ⟨n, hn, not_le.1 hle⟩
    · exact .inr (hover h)
  · rintro (⟨n, hn, hlong⟩ | hover)
    · obtain ⟨zone, hparse⟩ := parse_of_asks hn
      rw [hparse, if_neg hlong.not_ge]
    · exact parse_of_overruns hover

namespace Expr
variable {e : Expr} {text : String} {n : Nat} {t now last : Instant}

/-- An expression that was read has the period that its text asks for. -/
theorem plan_eq_every_iff (hparse : Expr.parse text = .ok e) : e.plan = .every n ↔ AsksEvery text n := by
  have hasks : ∀ m, AsksEvery text m → e.plan = .every m := by
    intro m hm
    obtain ⟨zone, hm⟩ := parse_of_asks hm
    rw [hparse] at hm
    split_ifs at hm
    obtain rfl := Except.ok.inj hm
    rfl
  constructor
  · intro hplan
    obtain ⟨m, hm⟩ | ⟨-, hnone⟩ := parse_cases text
    · obtain rfl := Plan.every.inj (hplan.symm.trans (hasks m hm))
      exact hm
    · exact absurd hplan (hnone e hparse n)
  · exact hasks n

/-! ## The end of the calendar -/

/-- A period leads from an instant past the end of the calendar. -/
def Leaves (n : Nat) (t : Instant) : Prop :=
  Instant.endSecond ≤ t.second + n

lemma nextAfter_every_eq_beyond_iff (hplan : e.plan = .every n) (ht : t.InFourDigitYear) :
    e.nextAfter t = .beyond ↔ Leaves n t := by
  have hlow := ht.second_bounds.1
  have hfirst : Date.toDay ⟨Date.firstYear, 1, 1⟩ ≤ Date.toDay ⟨0, 1, 1⟩ := by decide +kernel
  have hend : (Instant.ofSecond (t.second + n)).Representable ↔ ¬Leaves n t := by
    unfold Instant.Representable Instant.ofSecond Instant.firstSecond Leaves
    dsimp only
    omega
  rw [nextAfter_every hplan]
  by_cases hleaves : Leaves n t
  · rw [if_neg fun hin => hend.1 hin hleaves]
    exact iff_of_true rfl hleaves
  · rw [if_pos (hend.2 hleaves)]
    exact iff_of_false nofun hleaves

lemma nextAfter_fields_ne_beyond {f : Fields} (hparse : Expr.parse text = .ok e) (hplan : e.plan = .fields f)
    (ht : t.InFourDigitYear) : e.nextAfter t ≠ .beyond := by
  rw [nextAfter_fields hplan]
  obtain ⟨hfrom, hto⟩ := ht
  exact Fields.nextAfter_ne_beyond (Expr.zone_of_parse hparse) (by omega) (by omega)

/-- The search for the next fire is aborted exactly if the text asks for a period that leaves the calendar. -/
theorem nextAfter_eq_beyond_iff (hparse : Expr.parse text = .ok e) (ht : t.InFourDigitYear) :
    e.nextAfter t = .beyond ↔ ∃ n, AsksEvery text n ∧ Leaves n t := by
  simp only [← plan_eq_every_iff hparse]
  cases hplan : e.plan with
  | every n => simp [nextAfter_every_eq_beyond_iff hplan ht]
  | fields f => simp [nextAfter_fields_ne_beyond hparse hplan ht]

section
variable {deadline : Option Int} {cap : Nat}
  (hlast : last.InFourDigitYear) (hnow : now.InFourDigitYear)
include hlast hnow

/-- A period that leaves the calendar is so long that nothing has been missed. -/
lemma decision_every_eq_beyond_iff (he : e.Steps) (hplan : e.plan = .every n) :
    e.decision cap last deadline now = .error .beyondCalendar ↔ Leaves n now := by
  have hstart : (earliest last deadline now).Representable := earliest_representable hlast.representable
  have hperiod := he n hplan
  rw [← nextAfter_every_eq_beyond_iff hplan hnow]
  obtain ⟨hr, hend⟩ | ⟨hr, hcount⟩ | ⟨-, -, hend⟩ := decision_cases he cap (rfl : earliest last deadline now = _)
  · refine iff_of_true hr ?_
    by_contra hne
    cases hnext : e.nextAfter now with
    | beyond => exact hne hnext
    | never =>
      rw [nextAfter_every hplan] at hnext
      split_ifs at hnext
    | «at» u => exact hend.elim (fun h => h (unbroken_every hplan hperiod hstart hnext)) hne
  · refine iff_of_false (by simp [hr]) fun hbeyond => ?_
    have hleaves : Leaves n now := (nextAfter_every_eq_beyond_iff hplan hnow).1 hbeyond
    have hempty : e.met (earliest last deadline now) now = ∅ := by
      refine met_eq_empty (fun t ht => ?_) he
      obtain ⟨-, rfl⟩ := (nextAfter_every_eq_at_iff hplan).1 ht
      have hle := Instant.second_mono (le_earliest last deadline now)
      have hlow := hlast.second_bounds.1
      have hhigh := hnow.second_bounds.2
      have hroom : 86400 * (2 * Date.toDay ⟨10000, 1, 1⟩ - Date.toDay ⟨0, 1, 1⟩) ≤ Instant.endSecond := by
        decide +kernel
      unfold Leaves at hleaves
      left
      simp only [Instant.ofSecond]
      omega
    rw [hempty, Set.encard_empty] at hcount
    exact absurd hcount (by simp)
  · obtain ⟨hnext, hr⟩ | ⟨m, u, -, hnext, hr⟩ := hend
    · simp [hr, hnext]
    · simp [hr, hnext]

lemma decision_fields_ne_beyond {f : Fields} (hparse : Expr.parse text = .ok e) (hplan : e.plan = .fields f) :
    e.decision cap last deadline now ≠ .error .beyondCalendar := by
  intro h
  have hz := Expr.zone_of_parse hparse
  have he : e.Steps := steps_of_parse hparse
  obtain ⟨-, hbroken⟩ | ⟨hr, -⟩ | ⟨-, -, hend⟩ := decision_cases he cap (rfl : earliest last deadline now = _)
  · obtain ⟨hlast0, -⟩ := hlast
    obtain ⟨hnow0, hnow1⟩ := hnow
    have hlow := (Fields.localYear_near hz last).1
    obtain ⟨hlow', -⟩ := Fields.localYear_near hz now
    have hhigh := (Fields.localYear_near hz now).2
    have hmono : localYear e.zone last ≤ localYear e.zone (earliest last deadline now) :=
      localYear_mono (le_earliest last deadline now)
    obtain hnear | hnear := near_end_of_broken he hplan hbroken
    · unfold Date.firstYear at hnear
      obtain hmin | hmin := min_choice (earliest last deadline now) now
      · rw [hmin] at hnear
        omega
      · rw [hmin] at hnear
        omega
    · unfold Date.lastYear horizon horizonYears at hnear
      omega
  · simp [hr] at h
  · obtain ⟨-, hr⟩ | ⟨m, u, -, -, hr⟩ := hend
    · simp [hr] at h
    · simp [hr] at h

/-- A decision is aborted exactly if the text asks for a period that leaves the calendar from now. -/
theorem decision_eq_beyond_iff (hparse : Expr.parse text = .ok e) :
    e.decision cap last deadline now = .error .beyondCalendar ↔ ∃ n, AsksEvery text n ∧ Leaves n now := by
  simp only [← plan_eq_every_iff hparse]
  cases hplan : e.plan with
  | every n => simp [decision_every_eq_beyond_iff hlast hnow (steps_of_parse hparse) hplan]
  | fields f => simp [decision_fields_ne_beyond hlast hnow hparse hplan]

end

end Expr

end Cron

end Timetable
