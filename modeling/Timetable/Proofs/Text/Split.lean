import Mathlib.Tactic.SplitIfs
import Timetable.Text.Split

/-!
# What splitting gives

Cutting at every separator is the splitting of lists, and cutting at the first one gives the only two texts that the
first occurrence of the character separates.
-/

namespace Timetable.Text
variable {d : Char} {cs before after : List Char}

lemma pieces_eq (sep : Char → Bool) (cs : List Char) : pieces sep cs = cs.splitOnP sep := by
  induction cs with
  | nil => rfl
  | cons c cs ih =>
    rw [pieces, ih, List.splitOnP_cons_eq_if_modifyHead]
    split_ifs
    · rfl
    · cases hrest : cs.splitOnP sep with
      | nil => exact absurd hrest (List.splitOnP_ne_nil sep cs)
      | cons p ps => rfl

lemma words_eq (cs : List Char) : words cs = (cs.splitOnP isBlank).filter fun w => !w.isEmpty := by
  rw [words, pieces_eq]

lemma splitFirst_eq_none_iff : splitFirst (· == d) cs = none ↔ d ∉ cs := by
  induction cs with
  | nil => simp [splitFirst]
  | cons c cs ih =>
    rw [splitFirst, List.mem_cons, not_or, ← ih]
    by_cases hc : c = d
    · simp [hc]
    · simp [hc, Ne.symm hc]

lemma splitFirst_eq_some_iff :
    splitFirst (· == d) cs = some (before, after) ↔ cs = before ++ d :: after ∧ d ∉ before := by
  induction cs generalizing before with
  | nil => simp [splitFirst]
  | cons c cs ih =>
    rw [splitFirst]
    by_cases hc : c = d
    · -- the text is cut before its first character
      subst hc
      rw [if_pos (beq_self_eq_true c), Option.some.injEq, Prod.mk.injEq]
      constructor
      · rintro ⟨rfl, rfl⟩
        exact ⟨rfl, List.not_mem_nil⟩
      · rintro ⟨heq, hnot⟩
        cases before with
        | nil => exact ⟨rfl, (List.cons.inj heq).2⟩
        | cons b before =>
          obtain rfl := (List.cons.inj heq).1
          exact absurd List.mem_cons_self hnot
    · rw [if_neg (by simpa using hc), Option.map_eq_some_iff]
      constructor
      · rintro ⟨⟨rest, after'⟩, hrest, hcut⟩
        obtain ⟨rfl, rfl⟩ := Prod.mk.inj hcut
        obtain ⟨rfl, hnot⟩ := ih.1 hrest
        exact ⟨rfl, fun hmem => hnot ((List.mem_cons.1 hmem).resolve_left (Ne.symm hc))⟩
      · rintro ⟨heq, hnot⟩
        cases before with
        | nil => exact absurd (List.cons.inj heq).1 hc
        | cons b before =>
          obtain ⟨rfl, hcs⟩ := List.cons.inj heq
          exact ⟨(before, after), ih.2 ⟨hcs, fun hmem => hnot (List.mem_cons_of_mem c hmem)⟩, rfl⟩

end Timetable.Text
