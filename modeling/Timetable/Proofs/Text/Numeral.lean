import Mathlib.Data.Nat.Basic
import Timetable.Text.Numeral

/-!
# What numerals are read

A numeral is one decimal digit or more, with a plus sign before them or not. It is read exactly if its number is
within the limit.
-/

namespace Timetable.Text
variable {limit acc n : Nat} {cs : List Char}

/-- A text is at least one decimal digit and denotes the number. -/
structure IsDigits (cs : List Char) (n : Nat) : Prop where
  nonempty : cs ≠ []
  digits : ∀ c ∈ cs, c.isDigit
  number : n = Nat.ofDigitChars 10 cs 0

/-- A text denotes the number, with a plus sign or without. -/
def IsNumeral (cs : List Char) (n : Nat) : Prop :=
  IsDigits cs n ∨ ∃ digits, cs = '+' :: digits ∧ IsDigits digits n

lemma le_ofDigitChars (cs : List Char) (acc : Nat) : acc ≤ Nat.ofDigitChars 10 cs acc := by
  induction cs generalizing acc with
  | nil => exact le_rfl
  | cons c cs ih =>
    rw [Nat.ofDigitChars_cons]
    exact le_trans (by omega) (ih _)

lemma readDigits_eq_ok_iff (hacc : acc ≤ limit) :
    readDigits limit acc cs = .ok n ↔
      (∀ c ∈ cs, c.isDigit) ∧ n = Nat.ofDigitChars 10 cs acc ∧ n ≤ limit := by
  induction cs generalizing acc with
  | nil =>
    rw [readDigits, Except.ok.injEq, Nat.ofDigitChars_nil]
    constructor
    · rintro rfl
      exact ⟨nofun, rfl, hacc⟩
    · exact fun h => h.2.1.symm
  | cons c cs ih =>
    rw [readDigits, List.forall_mem_cons, Nat.ofDigitChars_cons]
    by_cases hc : c.isDigit
    · rw [if_pos hc, and_iff_right hc]
      dsimp only
      by_cases hnext : 10 * acc + digitValue c ≤ limit
      · rw [if_pos hnext]
        exact ih hnext
      · -- the rest of the digits does not lead back below the limit
        rw [if_neg hnext]
        refine iff_of_false nofun ?_
        rintro ⟨-, rfl, hle⟩
        exact hnext (le_trans (le_ofDigitChars cs _) hle)
    · rw [if_neg hc]
      exact iff_of_false nofun fun h => hc h.1.1

lemma IsDigits.ne_plus (h : IsDigits cs n) (digits : List Char) : cs ≠ '+' :: digits := by
  rintro rfl
  exact absurd (h.digits '+' (by simp)) (by decide)

/-- The texts that are read are the numerals within the limit. -/
theorem readNat_eq_ok_iff : readNat limit cs = .ok n ↔ IsNumeral cs n ∧ n ≤ limit := by
  have hdigits (cs : List Char) (hcs : cs ≠ []) :
      readDigits limit 0 cs = .ok n ↔ IsDigits cs n ∧ n ≤ limit := by
    rw [readDigits_eq_ok_iff (Nat.zero_le limit)]
    constructor
    · rintro ⟨hall, hn, hle⟩
      exact ⟨⟨hcs, hall, hn⟩, hle⟩
    · rintro ⟨⟨-, hall, hn⟩, hle⟩
      exact ⟨hall, hn, hle⟩
  unfold readNat IsNumeral
  split
  · refine iff_of_false nofun ?_
    rintro ⟨h | ⟨_, h, -⟩, -⟩
    · exact h.nonempty rfl
    · simp at h
  · refine iff_of_false nofun ?_
    rintro ⟨h | ⟨_, h, hnone⟩, -⟩
    · exact h.ne_plus _ rfl
    · exact hnone.nonempty (List.cons.inj h).2.symm
  · rename_i digits hne
    rw [hdigits digits (by simpa using hne)]
    refine and_congr_left fun _ => ?_
    constructor
    · exact fun h => .inr ⟨digits, rfl, h⟩
    · rintro (h | ⟨_, heq, h⟩)
      · exact absurd rfl (h.ne_plus digits)
      · rwa [(List.cons.inj heq).2]
  · rename_i hnil _ hplus
    rw [hdigits cs hnil]
    refine and_congr_left fun _ => ?_
    constructor
    · exact .inl
    · rintro (h | ⟨digits, heq, -⟩)
      · exact h
      · exact absurd heq (hplus digits)

end Timetable.Text
