import Mathlib.Algebra.BigOperators.Group.List.Basic
import Timetable.Proofs.Cron.Limits
import Timetable.Proofs.Text.Numeral

/-!
# Durations

A duration is a row of numbers, each with its unit. The reader sums it up from the left, and the sum of the terms
read so far has to fit at every step. The fires of a period of that many seconds are equally far apart: only the
first of them cuts a fraction of a second off.
-/

namespace Timetable.Cron
open Text

/-! ## The texts of durations -/

inductive TimeUnit
  | hour
  | minute
  | second

namespace TimeUnit

def letter : TimeUnit → Char
  | hour => 'h'
  | minute => 'm'
  | second => 's'

def seconds : TimeUnit → Nat
  | hour => 3600
  | minute => 60
  | second => 1

lemma seconds_pos (u : TimeUnit) : 1 ≤ u.seconds := by
  cases u <;> decide

lemma letter_not_digit (u : TimeUnit) : ¬u.letter.isDigit := by
  cases u <;> decide

lemma unitSeconds_eq_some_iff {c : Char} {n : Nat} :
    unitSeconds c = some n ↔ ∃ u : TimeUnit, c = u.letter ∧ n = u.seconds := by
  constructor
  · intro h
    unfold unitSeconds at h
    split at h
    · exact ⟨hour, rfl, (Option.some.inj h).symm⟩
    · exact ⟨minute, rfl, (Option.some.inj h).symm⟩
    · exact ⟨second, rfl, (Option.some.inj h).symm⟩
    · simp at h
  · rintro ⟨u, rfl, rfl⟩
    cases u <;> rfl

end TimeUnit

/-- One or more decimal digits, and what they count. -/
structure Term where
  digits : List Char
  number : Nat
  isDigits : IsDigits digits number
  unit : TimeUnit

namespace Term

def text (t : Term) : List Char :=
  t.digits ++ [t.unit.letter]

def seconds (t : Term) : Nat :=
  t.number * t.unit.seconds

/-- What a row of terms reads as. -/
def spell (ts : List Term) : List Char :=
  ts.flatMap text

def total (ts : List Term) : Nat :=
  (ts.map seconds).sum

@[simp]
lemma spell_nil : spell [] = [] := rfl

@[simp]
lemma total_nil : total [] = 0 := rfl

@[simp]
lemma spell_cons (t : Term) (ts : List Term) :
    spell (t :: ts) = t.digits ++ t.unit.letter :: spell ts := by
  simp [spell, text]

@[simp]
lemma total_cons (t : Term) (ts : List Term) : total (t :: ts) = t.seconds + total ts := by
  simp [total]

/-- Every number, every product and every sum from the left fits in a signed word of 64 bits. -/
structure Fit (ts : List Term) : Prop where
  number : ∀ t ∈ ts, t.number ≤ maxSigned64
  product : ∀ t ∈ ts, t.seconds ≤ maxSigned64
  sum : ∀ us, us <+: ts → total us ≤ maxSigned64

lemma number_le_seconds (t : Term) : t.number ≤ t.seconds :=
  Nat.le_mul_of_pos_right _ t.unit.seconds_pos

lemma seconds_le_total {t : Term} {ts : List Term} (h : t ∈ ts) : t.seconds ≤ total ts :=
  List.le_sum_of_mem (List.mem_map_of_mem h)

/-- All of them fit if the last sum does. -/
lemma fit_iff {ts : List Term} : Fit ts ↔ total ts ≤ maxSigned64 := by
  constructor
  · exact fun h => h.sum ts List.prefix_rfl
  · intro h
    have hproduct : ∀ t ∈ ts, t.seconds ≤ maxSigned64 := fun t ht => (seconds_le_total ht).trans h
    refine ⟨fun t ht => t.number_le_seconds.trans (hproduct t ht), hproduct, ?_⟩
    rintro us ⟨rest, rfl⟩
    have hsplit : total (us ++ rest) = total us + total rest := by
      simp [total]
    omega

end Term

/-- A text spells one term or more that fit, and they come to so many seconds, at least one. -/
def IsDuration (raw : List Char) (n : Nat) : Prop :=
  ∃ ts : List Term, ts ≠ [] ∧ raw = Term.spell ts ∧ Term.Fit ts ∧ 1 ≤ Term.total ts ∧ n = Term.total ts

/-! ## Reading a duration -/

section
variable {digits rest cs : List Char} {c : Char} {total n : Nat}

/-- Where the digits of the first term end is seen from the text. -/
lemma digits_unique {t : Term} (hdigits : ∀ d ∈ digits, d.isDigit) (hc : ¬c.isDigit)
    (h : digits ++ c :: cs = t.digits ++ t.unit.letter :: rest) :
    digits = t.digits ∧ c = t.unit.letter ∧ cs = rest := by
  have hfirst := congrArg (List.takeWhile Char.isDigit) h
  rw [List.takeWhile_append_of_pos hdigits, List.takeWhile_cons_of_neg hc,
    List.takeWhile_append_of_pos t.isDigits.digits, List.takeWhile_cons_of_neg t.unit.letter_not_digit,
    List.append_nil, List.append_nil] at hfirst
  rw [hfirst, List.append_cancel_left_eq, List.cons.injEq] at h
  exact ⟨hfirst, h⟩

lemma eq_nil_of_spell_digits {ts : List Term} (hdigits : ∀ d ∈ digits, d.isDigit)
    (h : digits = Term.spell ts) : ts = [] := by
  cases ts with
  | nil => rfl
  | cons t ts =>
    rw [Term.spell_cons] at h
    exact absurd (hdigits t.unit.letter (by simp [h])) t.unit.letter_not_digit

/-- A letter ends a term, whose seconds are added if they still fit. -/
lemma sumDuration_cons_iff (hdigits : ∀ d ∈ digits, d.isDigit) (hc : ¬c.isDigit) :
    sumDuration total digits (c :: cs) = some n ↔ ∃ t : Term, digits = t.digits ∧ c = t.unit.letter ∧
      total + t.seconds ≤ maxSigned64 ∧ sumDuration (total + t.seconds) [] cs = some n := by
  rw [sumDuration, if_neg hc]
  constructor
  · intro h
    split at h
    · rename_i unit m hunit hread
      obtain ⟨u, rfl, rfl⟩ := TimeUnit.unitSeconds_eq_some_iff.1 hunit
      obtain ⟨hnumeral, -⟩ := readNat_eq_ok_iff.1 hread
      have hm : IsDigits digits m := by
        obtain hm | ⟨_, rfl, -⟩ := hnumeral
        · exact hm
        · exact absurd (hdigits '+' (by simp)) (by decide)
      split_ifs at h with hfits
      exact ⟨⟨digits, m, hm, u⟩, rfl, rfl, hfits, h⟩
    · simp at h
  · rintro ⟨t, rfl, rfl, hfits, h⟩
    have hnumber := t.number_le_seconds
    have hread : readNat maxSigned64 t.digits = .ok t.number :=
      readNat_eq_ok_iff.2 ⟨.inl t.isDigits, by omega⟩
    rw [TimeUnit.unitSeconds_eq_some_iff.2 ⟨t.unit, rfl, rfl⟩, hread]
    dsimp only
    rw [← Term.seconds, if_pos hfits, h]

/-- The digits in hand belong to the first term of what is still to come. -/
lemma sumDuration_eq_some_iff (hdigits : ∀ d ∈ digits, d.isDigit) (htotal : total ≤ maxSigned64) :
    sumDuration total digits cs = some n ↔
      ∃ ts, digits ++ cs = Term.spell ts ∧ n = total + Term.total ts ∧ n ≤ maxSigned64 ∧ 1 ≤ n := by
  induction cs generalizing total digits with
  | nil =>
    rw [sumDuration, List.append_nil]
    constructor
    · intro h
      split_ifs at h with hend
      rw [Bool.and_eq_true, List.isEmpty_iff, decide_eq_true_eq] at hend
      obtain rfl := Option.some.inj h
      exact ⟨[], hend.1, rfl, htotal, hend.2⟩
    · rintro ⟨ts, hspell, rfl, -, hpos⟩
      obtain rfl := eq_nil_of_spell_digits hdigits hspell
      obtain rfl : digits = [] := hspell
      rw [Term.total_nil, add_zero] at hpos ⊢
      exact if_pos (by simpa using hpos)
  | cons c cs ih =>
    by_cases hc : c.isDigit
    · have hmore : ∀ d ∈ digits ++ [c], d.isDigit :=
        fun d hd => (List.mem_append.1 hd).elim (hdigits d) fun hd => List.mem_singleton.1 hd ▸ hc
      rw [sumDuration, if_pos hc, ih hmore htotal, List.append_assoc, List.singleton_append]
    · have hnone : ∀ d ∈ ([] : List Char), d.isDigit := List.forall_mem_nil _
      rw [sumDuration_cons_iff hdigits hc]
      constructor
      · rintro ⟨t, rfl, rfl, hfits, h⟩
        obtain ⟨ts, hspell, hn, hle, hpos⟩ := (ih hnone hfits).1 h
        rw [List.nil_append] at hspell
        exact ⟨t :: ts, by rw [Term.spell_cons, hspell], by rw [Term.total_cons, hn, add_assoc], hle, hpos⟩
      · rintro ⟨ts, hspell, hn, hle, hpos⟩
        cases ts with
        | nil => simp [Term.spell] at hspell
        | cons t ts =>
          rw [Term.spell_cons] at hspell
          rw [Term.total_cons] at hn
          obtain ⟨hfirst, hletter, hrest⟩ := digits_unique hdigits hc hspell
          have hfits : total + t.seconds ≤ maxSigned64 := by omega
          exact ⟨t, hfirst, hletter, hfits, (ih hnone hfits).2 ⟨ts, hrest, by omega, hle, hpos⟩⟩

end

lemma sumDuration_iff_isDuration {raw : List Char} {n : Nat} :
    sumDuration 0 [] raw = some n ↔ IsDuration raw n := by
  rw [sumDuration_eq_some_iff (List.forall_mem_nil _) (Nat.zero_le _), List.nil_append]
  constructor
  · rintro ⟨ts, hraw, hn, hle, hpos⟩
    rw [zero_add] at hn
    refine ⟨ts, ?_, hraw, Term.fit_iff.2 (hn ▸ hle), hn ▸ hpos, hn⟩
    rintro rfl
    simp [hn, Term.total] at hpos
  · rintro ⟨ts, -, hraw, hfit, hpos, rfl⟩
    exact ⟨ts, hraw, (zero_add _).symm, Term.fit_iff.1 hfit, hpos⟩

section
variable {raw : List Char} {n d : Nat}

lemma parseDuration_of_isDuration (h : IsDuration raw n) :
    parseDuration raw = if n ≤ longestPeriod then .ok n else .error .overlongPeriod := by
  unfold parseDuration
  rw [sumDuration_iff_isDuration.2 h]

lemma parseDuration_eq_error_iff :
    parseDuration raw = .error (.invalidDuration (String.ofList raw)) ↔ ¬∃ n, IsDuration raw n := by
  constructor
  · rintro h ⟨n, hn⟩
    rw [parseDuration_of_isDuration hn] at h
    split_ifs at h
    simp at h
  · intro hnone
    have hsum : sumDuration 0 [] raw = none :=
      Option.eq_none_iff_forall_ne_some.2 fun n hn => hnone ⟨n, sumDuration_iff_isDuration.1 hn⟩
    unfold parseDuration
    rw [hsum]

lemma isDuration_of_parseDuration (h : parseDuration raw = .ok d) : IsDuration raw d := by
  by_cases hsome : ∃ n, IsDuration raw n
  · obtain ⟨n, hn⟩ := hsome
    rw [parseDuration_of_isDuration hn] at h
    split_ifs at h
    rwa [← Except.ok.inj h]
  · rw [parseDuration_eq_error_iff.2 hsome] at h
    simp at h

end

/-! ## One fire after the other -/

namespace Expr

/-- The fire that is reached by asking so many times, each time after the fire before. -/
def after (e : Expr) : (count : Nat) → Instant → Upcoming
  | 0, t => .at t
  | count + 1, t =>
    match e.after count t with
    | .at u => e.nextAfter u
    | other => other

variable {e : Expr} {period : Nat} {t : Instant}

/-- Later fires are whole seconds, so nothing is cut off them. -/
lemma after_every (hplan : e.plan = .every period) (ht : t.Representable) (count : Nat)
    (h : (Instant.ofSecond (t.second + (count + 1) * period)).Representable) :
    e.after (count + 1) t = .at (.ofSecond (t.second + (count + 1) * period)) := by
  induction count with
  | zero =>
    simp only [Nat.cast_zero, zero_add, one_mul] at h ⊢
    exact (nextAfter_every_eq_at_iff hplan).2 ⟨h, rfl⟩
  | succ count ih =>
    have hnext : t.second + ((count + 1 : Nat) + 1) * period =
        t.second + (count + 1) * period + period := by
      push_cast
      ring
    have hpos : (0 : Int) ≤ (count + 1) * period := by positivity
    rw [hnext] at h ⊢
    have hbefore : (Instant.ofSecond (t.second + (count + 1) * period)).Representable := by
      unfold Instant.Representable Instant.ofSecond at *
      dsimp only at *
      omega
    rw [after, ih hbefore]
    exact (nextAfter_every_eq_at_iff hplan).2 ⟨h, rfl⟩

end Expr

/-- A duration is rejected exactly if it is not spelled as one; what is read is its seconds, and its fires step
evenly by them. -/
theorem durations_step_evenly (raw : List Char) :
    (parseDuration raw = .error (.invalidDuration (String.ofList raw)) ↔ ¬∃ n, IsDuration raw n) ∧
      (∀ n, IsDuration raw n →
        parseDuration raw = if n ≤ longestPeriod then .ok n else .error .overlongPeriod) ∧
      ∀ d, parseDuration raw = .ok d → ∀ e : Expr, e.plan = .every d → ∀ t : Instant, t.Representable →
        ((Instant.ofSecond (t.second + d)).Representable →
          e.nextAfter t = .at (.ofSecond (t.second + d)) ∧ t < .ofSecond (t.second + d)) ∧
        ∀ k : Nat, 1 ≤ k → (Instant.ofSecond (t.second + k * d)).Representable →
          e.after k t = .at (.ofSecond (t.second + k * d)) := by
  refine ⟨parseDuration_eq_error_iff, fun n hn => parseDuration_of_isDuration hn, ?_⟩
  intro d hd e hplan t ht
  obtain ⟨ts, -, -, -, hpos, hts⟩ := isDuration_of_parseDuration hd
  rw [← hts] at hpos
  constructor
  · intro hrep
    exact ⟨(Expr.nextAfter_every_eq_at_iff hplan).2 ⟨hrep, rfl⟩, Instant.lt_ofSecond_add hpos t⟩
  · intro k hk hrep
    obtain ⟨k, rfl⟩ := Nat.exists_eq_add_of_le' hk
    rw [Nat.cast_succ] at hrep ⊢
    exact Expr.after_every hplan ht k hrep

/-- A leap second counts as part of the second before it, and that is what the period is added to. -/
theorem durations_step_evenly_leap :
    let e : Expr := ⟨"@every 1h30m", 0, .every 5400⟩
    let leap : Instant := ⟨1483228799, 1500000000, by decide⟩
    parseDuration "1h30m".toList = .ok 5400 ∧
      e.nextAfter leap = .at (.ofSecond 1483234199) ∧ leap < .ofSecond 1483234199 ∧
      e.after 3 leap = .at (.ofSecond 1483244999) := by
  intro e leap
  have hraw : parseDuration "1h30m".toList = .ok 5400 := by decide +kernel
  have hleap : leap.Representable := by decide +kernel
  obtain ⟨hnext, hlater⟩ :=
    (durations_step_evenly "1h30m".toList).2.2 5400 hraw e rfl leap hleap
  obtain ⟨hfirst, hlt⟩ := hnext (by decide +kernel)
  exact ⟨hraw, hfirst, hlt, hlater 3 (by decide) (by decide +kernel)⟩

end Timetable.Cron
