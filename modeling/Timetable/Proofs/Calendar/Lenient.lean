import Timetable.Proofs.Calendar.Rfc3339

/-!
# Reading back any time

What is written with its fraction and with a year of any length is read back by the lenient reader, in all
years of the calendar. The times that this reader gives are civil: a leap second is the last one of a minute.
-/

namespace Timetable

open Text

/-- Whatever a computation gives has a property. -/
def Gives {ε α : Type} (p : α → Prop) (x : Except ε α) : Prop :=
  ∀ a, x = .ok a → p a

namespace Gives
variable {ε α β : Type} {p : α → Prop} {q : β → Prop} {x : Except ε α} {f : α → Except ε β}

lemma ok {a : α} (h : p a) : Gives p (.ok a : Except ε α) := by
  rintro b hb
  exact Except.ok.inj hb ▸ h

lemma error (e : ε) : Gives p (.error e : Except ε α) :=
  nofun

lemma bind (h : ∀ a, x = .ok a → Gives q (f a)) : Gives q (x >>= f) := by
  cases hx : x with
  | error e => exact nofun
  | ok a => exact h a hx

lemma ite {c : Prop} [Decidable c] {y : Except ε α} (hx : c → Gives p x) (hy : ¬c → Gives p y) :
    Gives p (if c then x else y) := by
  split_ifs with hc
  · exact hx hc
  · exact hy hc

/-- A check that fails ends a computation. -/
lemma guard {c : Prop} [Decidable c] {e : ε} {k : Unit → Except ε α} (h : ¬c → Gives p (k ())) :
    Gives p (if c then Except.error e >>= k else k ()) :=
  ite (fun _ => nofun) h

end Gives

lemma Text.padded_ne_nil (width n : Nat) : (padded width n).toList ≠ [] := by
  simp [padded]

namespace Instant

/-- A time that a clock can show. -/
structure Civil (t : Instant) : Prop where
  representable : t.Representable
  leap : t.isLeap = true → t.second % 60 = 59

/-! ## Digits -/

lemma isBlank_of_isDigit {c : Char} (h : c.isDigit = true) : isBlank c = false := by
  have hlow : 48 ≤ c.toNat ∧ c.toNat ≤ 57 := by
    simp only [Char.isDigit, Bool.and_eq_true, decide_eq_true_eq] at h
    exact h
  simp [isBlank]
  omega

/-- A character other than a digit ends a number, and so does its limit. -/
lemma readUpTo_digits {limit : Nat} {digits : List Char} (hdigits : ∀ c ∈ digits, c.isDigit = true)
    (hne : digits ≠ []) (hlimit : digits.length ≤ limit) {c : Char} {rest : List Char}
    (hc : c.isDigit = false) :
    readUpTo limit (digits ++ c :: rest) = .ok (Nat.ofDigitChars 10 digits 0, c :: rest) := by
  have htake : (((digits ++ c :: rest).take limit).takeWhile Char.isDigit) = digits := by
    rw [List.take_append, List.take_of_length_le hlimit, List.takeWhile_append_of_pos hdigits]
    cases limit - digits.length <;> simp [hc]
  unfold readUpTo
  dsimp only
  rw [htake]
  simp [hne]
  rfl

lemma readUpTo_padded {limit width n : Nat} (hlimit : (padded width n).toList.length ≤ limit) {c : Char}
    (hc : c.isDigit = false) (rest : List Char) :
    readUpTo limit ((padded width n).toList ++ c :: rest) = .ok (n, c :: rest) := by
  rw [readUpTo_digits (fun _ => isDigit_of_mem_padded) (padded_ne_nil width n) hlimit hc,
    ofDigitChars_padded]

/-- Digits are not blank. -/
lemma dropWhile_padded (width n : Nat) (rest : List Char) :
    ((padded width n).toList ++ rest).dropWhile isBlank = (padded width n).toList ++ rest := by
  cases hp : (padded width n).toList with
  | nil => exact absurd hp (padded_ne_nil width n)
  | cons c cs =>
    have hc : c.isDigit = true := isDigit_of_mem_padded (hp ▸ List.mem_cons_self)
    simp [isBlank_of_isDigit hc]

lemma readShort_padded {lo hi n : Nat} (hlo : lo ≤ n) (hhi : n ≤ hi) (hn : n < 100) {c : Char}
    (hc : c.isDigit = false) (rest : List Char) :
    readShort lo hi ((padded 2 n).toList ++ c :: rest) = .ok (n, c :: rest) := by
  have hlength : (padded 2 n).toList.length ≤ 2 := (padded_length (by decide) hn).le
  have hrange : ¬(n < lo ∨ hi < n) := by omega
  unfold readShort
  rw [dropWhile_padded, readUpTo_padded hlength hc]
  simp only [bind, Except.bind, if_neg hrange]

/-! ## Years -/

lemma readYear_digit {c : Char} (hc : c.isDigit = true) (cs : List Char) :
    readYear (c :: cs) = (readUpTo 4 (c :: cs)).map fun (n, rest) => ((n : Int), rest) := by
  unfold readYear
  split
  next h =>
    obtain ⟨rfl, rfl⟩ := List.cons.inj h
    exact absurd hc (by decide)
  next h =>
    obtain ⟨rfl, rfl⟩ := List.cons.inj h
    exact absurd hc (by decide)
  next => rfl

/-- A year is read up to the dash after it. -/
lemma readYear_renderYear (year : Int) (rest : List Char) :
    readYear ((renderYear year).toList ++ '-' :: rest) = .ok (year, '-' :: rest) := by
  have hdash : ('-' : Char).isDigit = false := by decide
  have hlong : (padded 4 year.natAbs).toList.length ≤
      ((padded 4 year.natAbs).toList ++ '-' :: rest).length := by
    rw [List.length_append]
    exact Nat.le_add_right _ _
  unfold renderYear
  split_ifs with hfour hneg
  · have hlength : (padded 4 year.toNat).toList.length ≤ 4 :=
      (padded_length (by decide) (show year.toNat < 10000 by omega)).le
    have hread := readUpTo_padded hlength hdash rest
    cases hp : (padded 4 year.toNat).toList with
    | nil => exact absurd hp (padded_ne_nil 4 _)
    | cons c cs =>
      have hc : c.isDigit = true := isDigit_of_mem_padded (hp ▸ List.mem_cons_self)
      rw [hp, List.cons_append] at hread
      rw [List.cons_append, readYear_digit hc, hread]
      simp only [Except.map, Int.toNat_of_nonneg hfour.1]
  · have htext : ("-" ++ padded 4 year.natAbs).toList = '-' :: (padded 4 year.natAbs).toList := by
      rw [String.toList_append]
      rfl
    have hyear : -(year.natAbs : Int) = year := by omega
    rw [htext, List.cons_append, readYear, readUpTo_padded hlong hdash]
    simp only [Except.map, hyear]
  · have htext : ("+" ++ padded 4 year.natAbs).toList = '+' :: (padded 4 year.natAbs).toList := by
      rw [String.toList_append]
      rfl
    have hyear : (year.natAbs : Int) = year := by omega
    rw [htext, List.cons_append, readYear, readUpTo_padded hlong hdash]
    simp only [Except.map, hyear]

/-! ## Fractions -/

lemma readFraction_padded {width n : Nat} (hw : 0 < width) (hwidth : width ≤ 9) (hn : n < Nat.pow 10 width) :
    readOptionalFraction (("." ++ padded width n).toList ++ ['Z']) =
      .ok (n * Nat.pow 10 (9 - width), ['Z']) := by
  have hlength := padded_length hw hn
  have htext : ("." ++ padded width n).toList ++ ['Z'] = '.' :: ((padded width n).toList ++ ['Z']) := by
    rw [String.toList_append]
    rfl
  rw [htext, readOptionalFraction, readFraction, readUpTo_padded (by omega) (by decide)]
  simp only [bind, Except.bind, List.length_append, List.length_singleton, hlength, Nat.add_sub_cancel]
  rfl

/-- No digit of a fraction is lost. -/
lemma readOptionalFraction_renderFraction (t : Instant) :
    readOptionalFraction (t.renderFraction.toList ++ ['Z']) = .ok (t.nano % giga, ['Z']) := by
  have hlt : t.nano % giga < giga := Nat.mod_lt _ (by decide)
  unfold renderFraction
  generalize t.nano % giga = n at *
  unfold giga at hlt
  dsimp only
  split_ifs with hzero hmilli hmicro
  · subst hzero
    rfl
  · have hn : n / 1000000 * Nat.pow 10 (9 - 3) = n := by
      show n / 1000000 * 1000000 = n
      omega
    rw [readFraction_padded (by decide) (by decide) (show n / 1000000 < 1000 by omega), hn]
  · have hn : n / 1000 * Nat.pow 10 (9 - 6) = n := by
      show n / 1000 * 1000 = n
      omega
    rw [readFraction_padded (by decide) (by decide) (show n / 1000 < 1000000 by omega), hn]
  · have hn : n * Nat.pow 10 (9 - 9) = n := Nat.mul_one n
    rw [readFraction_padded (by decide) (by decide) (show n < 1000000000 by omega), hn]

lemma renderFraction_end (t : Instant) :
    ∃ c rest, t.renderFraction.toList ++ ['Z'] = c :: rest ∧ c.isDigit = false := by
  unfold renderFraction
  dsimp only
  split_ifs
  · exact ⟨'Z', [], rfl, rfl⟩
  all_goals
    rw [String.toList_append]
    exact ⟨'.', _, rfl, rfl⟩

/-! ## The whole text -/

lemma dropWhile_renderYear (year : Int) (rest : List Char) :
    ((renderYear year).toList ++ rest).dropWhile isBlank = (renderYear year).toList ++ rest := by
  unfold renderYear
  split_ifs
  · exact dropWhile_padded 4 _ rest
  · rw [String.toList_append]
    rfl
  · rw [String.toList_append]
    rfl

/-- A time is the sum of its day, its clock and its fraction. -/
lemma ofLocal_civil {t : Instant} (h : t.Civil) {clock : Nat} (hclock : t.second % 86400 = clock) :
    ofLocal t.date.toDay (clock / 3600) (clock / 60 % 60) (clock % 60 + if t.isLeap then 1 else 0)
      (t.nano % giga) 0 = t := by
  have hday : t.date.toDay = t.second / 86400 := Date.toDay_ofDay _
  have hnano := t.nano_lt
  cases hleap : t.isLeap with
  | false =>
    have hlow : t.nano < giga := by simpa [isLeap] using hleap
    have hsixty : clock % 60 ≠ 60 := by omega
    ext
    · simp only [ofLocal, hday, Bool.false_eq_true, if_false, Nat.add_zero, hsixty]
      omega
    · simp [ofLocal, hsixty, Nat.mod_eq_of_lt hlow]
  | true =>
    have hhigh : giga ≤ t.nano := by simpa [isLeap] using hleap
    have hsixty : clock % 60 + 1 = 60 := by
      have hlast := h.leap hleap
      omega
    unfold giga at hhigh
    ext
    · simp only [ofLocal, hday, if_true, hsixty]
      omega
    · simp only [ofLocal, if_true, hsixty, Nat.mod_mod, giga]
      omega

/-- Whatever a clock can show is read back as it was. -/
theorem readLenient_render {t : Instant} (h : t.Civil) : readLenient t.render = .ok t := by
  have hclock := Int.emod_nonneg t.second (show (86400 : Int) ≠ 0 by decide)
  have hclock' := Int.emod_lt_of_pos t.second (show (0 : Int) < 86400 by decide)
  obtain ⟨clock, hc⟩ := Int.eq_ofNat_of_zero_le hclock
  have hvalid : t.date.Valid := Date.ofDay_valid _
  obtain ⟨hfirst, hlast⟩ := representable_iff.1 h.representable
  have hmonth : t.date.month ≤ 12 := hvalid.2.1
  have hday : t.date.day ≤ 31 := hvalid.2.2.2.trans (Date.daysInMonth_le _ _)
  have htext : t.render.toList = (renderYear t.date.year).toList ++ '-' :: ((padded 2 t.date.month).toList ++
      '-' :: ((padded 2 t.date.day).toList ++ 'T' :: ((padded 2 (clock / 3600)).toList ++
        ':' :: ((padded 2 (clock / 60 % 60)).toList ++
          ':' :: ((padded 2 (clock % 60 + if t.isLeap then 1 else 0)).toList ++
            (t.renderFraction.toList ++ ['Z'])))))) := by
    simp [render, renderDate, renderClock, hc]
  obtain ⟨c, rest, hend, hdigit⟩ := renderFraction_end t
  have hfraction := readOptionalFraction_renderFraction t
  rw [hend] at htext hfraction
  have hdash : ∀ cs, List.dropWhile isBlank ('-' :: cs) = '-' :: cs := fun _ => rfl
  have hcolon : ∀ cs, List.dropWhile isBlank (':' :: cs) = ':' :: cs := fun _ => rfl
  have hz : readLenientOffset (List.dropWhile isBlank ['Z']) = .ok (0, []) := rfl
  have hsecond : (clock % 60 + if t.isLeap then 1 else 0) ≤ 60 := by
    split_ifs <;> omega
  have hword : ¬(yearLimit ≤ t.date.year ∨ t.date.year < -yearLimit) := by
    unfold yearLimit
    unfold Date.firstYear at hfirst
    unfold Date.lastYear at hlast
    omega
  have hyears : ¬(t.date.year < Date.firstYear ∨ Date.lastYear < t.date.year) := by omega
  have hdate : Date.of? t.date.year t.date.month t.date.day = some t.date := if_pos hvalid
  have hzone : ¬86400 ≤ 0 := by decide
  unfold readLenient
  dsimp only
  rw [htext, dropWhile_renderYear, readYear_renderYear]
  simp only [bind, Except.bind, if_neg hword, hdash, readChar_cons, hcolon, readSeparator_cons,
    readShort_padded hvalid.1 hmonth (show t.date.month < 100 by omega) (show '-'.isDigit = false from rfl),
    readShort_padded hvalid.2.2.1 hday (show t.date.day < 100 by omega) (show 'T'.isDigit = false from rfl),
    readShort_padded (Nat.zero_le _) (show clock / 3600 ≤ 23 by omega) (show clock / 3600 < 100 by omega)
      (show ':'.isDigit = false from rfl),
    readShort_padded (Nat.zero_le _) (show clock / 60 % 60 ≤ 59 by omega)
      (show clock / 60 % 60 < 100 by omega) (show ':'.isDigit = false from rfl),
    readShort_padded (Nat.zero_le _) hsecond (Nat.lt_of_le_of_lt hsecond (by decide)) hdigit, hfraction, hz,
    List.dropWhile_nil, List.isEmpty_nil, Bool.not_true, Bool.false_eq_true, if_false, hdate, Option.elim,
    if_neg hyears, Int.natAbs_zero, if_neg hzone, ofLocal_civil h hc, if_pos h.representable]

/-! ## What is read -/

lemma readOffset_gives (colon : List Char → Read (List Char)) (cs : List Char) :
    Gives (fun r => 60 ∣ r.1) (readOffset colon cs) := by
  cases cs with
  | nil => exact .error _
  | cons c cs =>
    refine .ite (fun _ => .ok (Int.dvd_zero 60)) fun _ => .ite (fun _ => ?_) fun _ => .error _
    refine .bind fun ⟨⟨h₁, h₂⟩, cs⟩ _ => .bind fun cs _ => .bind fun ⟨⟨m₁, m₂⟩, cs⟩ _ => ?_
    refine .ite (fun _ => .error _) fun _ => .ok ?_
    dsimp only
    split_ifs <;> omega

lemma readLenientOffset_gives (cs : List Char) : Gives (fun r => 60 ∣ r.1) (readLenientOffset cs) :=
  .ite (fun _ => .ok (Int.dvd_zero 60)) fun _ => readOffset_gives _ cs

/-- An offset of whole minutes leaves a leap second where it was. -/
lemma leap_ofLocal {day : Int} {hour minute second nano : Nat} {offset : Int} (hoffset : 60 ∣ offset)
    (h : (ofLocal day hour minute second nano offset).isLeap = true) :
    (ofLocal day hour minute second nano offset).second % 60 = 59 := by
  have hlt : nano % giga < giga := Nat.mod_lt _ (by decide)
  have hsixty : second = 60 := by
    by_contra hne
    simp only [isLeap, ofLocal, hne, if_false, Nat.add_zero, decide_eq_true_eq] at h
    omega
  simp only [ofLocal, hsixty, if_true]
  omega

/-- The lenient reader only gives times that a clock can show. -/
theorem readLenient_gives (text : String) : Gives Civil (readLenient text) := by
  unfold readLenient
  refine .bind fun ⟨year, cs⟩ _ => .guard fun _ => .bind fun cs _ => .bind fun ⟨month, cs⟩ _ => ?_
  refine .bind fun cs _ => .bind fun ⟨day, cs⟩ _ => .bind fun cs _ => .bind fun ⟨hour, cs⟩ _ => ?_
  refine .bind fun cs _ => .bind fun ⟨minute, cs⟩ _ => .bind fun cs _ => .bind fun ⟨second, cs⟩ _ => ?_
  refine .bind fun ⟨nano, cs⟩ _ => .bind fun ⟨offset, cs⟩ hoffset => .guard fun _ => ?_
  refine .bind fun date _ => .guard fun _ => .guard fun _ => .ite (fun h => .ok ⟨h, ?_⟩) fun _ => .error _
  exact leap_ofLocal (readLenientOffset_gives _ _ hoffset)

end Instant

end Timetable
