import Mathlib.Data.List.Induction
import Timetable.Calendar.Rfc3339
import Timetable.Proofs.Calendar.Date
import Timetable.Proofs.Calendar.Instant

/-!
# Reading back written times

What was written without fraction in the years 0 to 9999 is read back as the whole second that is shown.
-/

namespace Timetable

namespace Text

lemma length_le_utf8ByteSize (cs : List Char) : cs.length ≤ (String.ofList cs).utf8ByteSize := by
  induction cs with
  | nil => simp
  | cons c cs ih =>
    have hc := Char.utf8Size_pos c
    rw [← List.singleton_append, String.ofList_append, String.utf8ByteSize_append,
      ← String.singleton_eq_ofList, String.utf8ByteSize_singleton, List.length_append,
      List.length_singleton]
    omega

section
variable {width n : Nat} (hw : 0 < width) (hn : n < Nat.pow 10 width)
include hw hn

lemma padded_length : (padded width n).toList.length = width := by
  have hlen := (Nat.length_toDigits_le_iff (b := 10) (by decide) hw).2 hn
  simp only [padded, Nat.toString_eq_repr, String.toList_append, String.toList_ofList,
    Nat.toList_repr, List.length_append, List.length_replicate]
  rw [← String.length_toList, Nat.toList_repr]
  omega

end

lemma isDigit_of_mem_padded {width n : Nat} {c : Char} (h : c ∈ (padded width n).toList) :
    c.isDigit := by
  simp only [padded, Nat.toString_eq_repr, String.toList_append, String.toList_ofList,
    Nat.toList_repr, List.mem_append, List.mem_replicate] at h
  obtain ⟨-, rfl⟩ | h := h
  · decide
  · exact Nat.isDigit_of_mem_toDigits (by decide) (by decide) h

lemma ofDigitChars_padded (width n : Nat) : Nat.ofDigitChars 10 (padded width n).toList 0 = n := by
  simp only [padded, Nat.toString_eq_repr, String.toList_append, String.toList_ofList,
    Nat.toList_repr]
  rw [Nat.ofDigitChars_append, Nat.ofDigitChars_replicate_zero, Nat.mul_zero,
    Nat.ofDigitChars_ten_toDigits]

end Text

namespace Instant
open Text

/-! ## Single fields -/

lemma readFixed_digits (digits rest : List Char) (h : ∀ c ∈ digits, c.isDigit) :
    readFixed digits.length (digits ++ rest) = .ok (Nat.ofDigitChars 10 digits 0, rest) := by
  induction digits using List.reverseRecOn generalizing rest with
  | nil => rfl
  | append_singleton digits c ih =>
    have hc : c.isDigit := h c (by simp)
    have hrest := ih (c :: rest) fun d hd => h d (by simp [hd])
    rw [List.length_append, List.length_singleton, List.append_assoc, List.singleton_append,
      readFixed, hrest]
    simp only [bind, Except.bind, hc, if_true]
    rw [Nat.ofDigitChars_append]
    simp [Nat.ofDigitChars, digitValue, Nat.mul_comm]

lemma readFixed_padded {width n : Nat} (hw : 0 < width) (hn : n < Nat.pow 10 width) (rest : List Char) :
    readFixed width ((padded width n).toList ++ rest) = .ok (n, rest) := by
  have h := readFixed_digits (padded width n).toList rest fun _ => isDigit_of_mem_padded
  rwa [padded_length hw hn, ofDigitChars_padded] at h

@[simp]
lemma readChar_cons (c : Char) (rest : List Char) : readChar c (c :: rest) = .ok rest := by
  simp [readChar]

lemma readSeparator_cons (rest : List Char) : readSeparator ('T' :: rest) = .ok rest := by
  simp [readSeparator]

/-! ## The whole text -/

/-- The characters of a date and a time of day. -/
def layout (year month day hour minute second : Nat) : List Char :=
  (padded 4 year).toList ++ '-' :: ((padded 2 month).toList ++ '-' :: ((padded 2 day).toList ++
    'T' :: ((padded 2 hour).toList ++ ':' :: ((padded 2 minute).toList ++
      ':' :: ((padded 2 second).toList ++ ['Z'])))))

section
variable {year month day hour minute second : Nat} (hy : year < 10000) (hmonth : month < 100)
  (hday : day < 100) (hh : hour < 24) (hm : minute < 60) (hs : second < 61)
include hy hmonth hday hh hm hs

lemma length_layout : (layout year month day hour minute second).length = 20 := by
  simp only [layout, List.length_append, List.length_cons, List.length_nil]
  rw [padded_length (by decide) hy, padded_length (by decide) hmonth,
    padded_length (by decide) hday, padded_length (by decide) (show hour < 100 by omega),
    padded_length (by decide) (show minute < 100 by omega),
    padded_length (by decide) (show second < 100 by omega)]

theorem readStrict_layout (hd : (⟨year, month, day⟩ : Date).Valid) :
    readStrict (String.ofList (layout year month day hour minute second)) =
      .ok (ofLocal (⟨year, month, day⟩ : Date).toDay hour minute second 0 0) := by
  have hlong := length_le_utf8ByteSize (layout year month day hour minute second)
  rw [length_layout hy hmonth hday hh hm hs] at hlong
  have hclock : ¬(24 ≤ hour ∨ 60 ≤ minute ∨ 61 ≤ second) := by omega
  unfold readStrict
  rw [if_neg (by omega)]
  simp only [bind, Except.bind, String.toList_ofList, layout,
    readFixed_padded (show 0 < 4 by decide) hy, readChar_cons,
    readFixed_padded (show 0 < 2 by decide) hmonth, readFixed_padded (show 0 < 2 by decide) hday,
    Date.of?, if_pos hd, Option.elim, readSeparator_cons,
    readFixed_padded (show 0 < 2 by decide) (show hour < 100 by omega),
    readFixed_padded (show 0 < 2 by decide) (show minute < 100 by omega),
    readFixed_padded (show 0 < 2 by decide) (show second < 100 by omega), readOptionalFraction,
    if_neg hclock]
  rfl

end

/-- The civil year of an instant has four digits. -/
def InFourDigitYear (t : Instant) : Prop :=
  0 ≤ t.date.year ∧ t.date.year ≤ 9999

lemma InFourDigitYear.between {a b t : Instant} (ha : a.InFourDigitYear) (hb : b.InFourDigitYear)
    (hat : a ≤ t) (htb : t ≤ b) : t.InFourDigitYear := by
  have hfirst : a.second / 86400 ≤ t.second / 86400 :=
    Int.ediv_le_ediv (by decide) (second_mono hat)
  have hlast : t.second / 86400 ≤ b.second / 86400 :=
    Int.ediv_le_ediv (by decide) (second_mono htb)
  exact ⟨ha.1.trans (Date.year_ofDay_mono hfirst), (Date.year_ofDay_mono hlast).trans hb.2⟩

lemma renderYear_natCast {year : Nat} (h : year < 10000) :
    renderYear (year : Int) = padded 4 year := by
  unfold renderYear
  rw [if_pos (by omega), Int.toNat_natCast]

/-- The whole second that an instant is shown in. A leap second is one of its own at the end of a minute; no clock has
it elsewhere, and there it is shown as the second that follows. -/
def cut (t : Instant) : Instant :=
  if t.isLeap then
    if t.second % 60 = 59 then ⟨t.second, giga, by decide⟩ else .ofSecond (t.second + 1)
  else .ofSecond t.second

lemma cut_of_whole {t : Instant} (hn : t.nano = 0) : t.cut = t := by
  have hleap : t.isLeap = false := by
    simp [isLeap, hn, giga]
  unfold cut
  rw [hleap]
  exact ext rfl hn.symm

/-- Where a clock can have it, an instant only loses its fraction. -/
lemma cut_of_civil {t : Instant} (hcivil : t.isLeap = true → t.second % 60 = 59) :
    t.cut.second = t.second ∧ t.cut.nano = t.nano - t.nano % giga := by
  have hnano := t.nano_lt
  have hleap : t.isLeap = true ↔ giga ≤ t.nano := decide_eq_true_iff
  unfold cut
  split_ifs with h hlast
  · rw [hleap] at h
    refine ⟨rfl, ?_⟩
    change giga = t.nano - t.nano % giga
    unfold giga at h ⊢
    omega
  · exact absurd (hcivil h) hlast
  · rw [hleap] at h
    refine ⟨rfl, ?_⟩
    unfold giga at h ⊢
    simp only [ofSecond]
    omega

/-- Reading what was written with a four-digit year gives the whole second back. -/
theorem readStrict_renderSeconds {t : Instant} (hy : t.InFourDigitYear) :
    readStrict t.renderSeconds = .ok t.cut := by
  obtain ⟨hy₀, hy₁⟩ := hy
  obtain ⟨year, hyear⟩ := Int.eq_ofNat_of_zero_le hy₀
  have hvalid := Date.ofDay_valid (t.second / 86400)
  have hclock := Int.emod_nonneg t.second (show (86400 : Int) ≠ 0 by decide)
  have hclock' := Int.emod_lt_of_pos t.second (show (0 : Int) < 86400 by decide)
  obtain ⟨clock, hc⟩ := Int.eq_ofNat_of_zero_le hclock
  have hdate : t.date = ⟨year, t.date.month, t.date.day⟩ := by
    rw [← hyear]
  have hvalid' : (⟨year, t.date.month, t.date.day⟩ : Date).Valid := hdate ▸ hvalid
  have hmonth : t.date.month < 100 := by
    have := hvalid'.2.1
    dsimp only at this
    omega
  have hday : t.date.day < 100 := by
    have hlast := Date.daysInMonth_le (Date.isLeap year) t.date.month
    have := hvalid'.2.2.2
    dsimp only at this
    omega
  have htext : t.renderSeconds = String.ofList (layout year t.date.month t.date.day (clock / 3600)
      (clock / 60 % 60) (clock % 60 + if t.isLeap then 1 else 0)) := by
    apply String.toList_injective
    simp only [renderSeconds, renderDate, hyear, renderYear_natCast (show year < 10000 by omega),
      renderClock, hc, layout, String.toList_append, String.toList_ofList]
    simp
  have hsecond : clock % 60 + (if t.isLeap then 1 else 0) < 61 := by
    split_ifs <;> omega
  rw [htext, readStrict_layout (by omega) hmonth hday (by omega) (by omega) hsecond hvalid', ← hdate]
  have htoDay : t.date.toDay = t.second / 86400 := Date.toDay_ofDay _
  have hminute : t.second % 60 = 59 ↔ clock % 60 = 59 := by omega
  congr 1
  unfold cut ofLocal
  simp only [htoDay, hminute]
  cases t.isLeap with
  | true =>
    by_cases hlast : clock % 60 = 59
    · simp only [hlast, if_true]
      ext
      · dsimp only
        omega
      · rfl
    · have hsixty : clock % 60 + 1 ≠ 60 := by omega
      simp only [hlast, hsixty, if_true, if_false]
      ext
      · simp only [ofSecond]
        omega
      · rfl
  | false =>
    have hsixty : clock % 60 ≠ 60 := by omega
    simp only [Bool.false_eq_true, if_false, Nat.add_zero, hsixty]
    ext
    · simp only [ofSecond]
      omega
    · rfl

end Instant

end Timetable
