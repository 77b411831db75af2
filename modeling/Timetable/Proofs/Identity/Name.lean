import Mathlib.Data.List.Basic
import Timetable.Identity.Key

/-!
# Valid names

A name is valid if it is short enough, has no other characters than allowed ones, and has a letter or digit at both
ends. A key is given exactly for two valid names.
-/

namespace Timetable

/-- A text of one-byte characters has as many bytes as characters. -/
lemma Text.utf8ByteSize_eq_length {cs : List Char} (h : ∀ c ∈ cs, c.utf8Size = 1) :
    (String.ofList cs).utf8ByteSize = cs.length := by
  induction cs with
  | nil => rfl
  | cons c cs ih =>
    rw [List.forall_mem_cons] at h
    rw [String.ofList_cons, String.utf8ByteSize_append, String.utf8ByteSize_singleton, h.1, ih h.2, List.length_cons,
      Nat.add_comm]

namespace Name
variable {name : String}

theorem validate_eq_ok_iff : validate name = .ok () ↔
    name.utf8ByteSize ≤ maxLength ∧ (∀ c ∈ name.toList, isAllowed c = true) ∧
      (∃ c, name.toList.head? = some c ∧ isAlnum c = true) ∧
      ∃ c, name.toList.getLast? = some c ∧ isAlnum c = true := by
  rw [← Option.any_eq_true, ← Option.any_eq_true, ← List.all_eq_true, ← Bool.and_eq_true]
  unfold validate
  dsimp only
  split_ifs with hempty hlong hallowed hends
  · simp [List.isEmpty_iff.1 hempty]
  · simp [Nat.not_le.2 hlong]
  · simp only [Bool.not_eq_true', Bool.eq_false_iff] at hallowed
    simp [hallowed]
  · simp only [Bool.not_eq_true', Bool.not_eq_false] at hallowed
    simp [Nat.not_lt.1 hlong, hallowed, hends]
  · simp [hends]

lemma ne_append_dash (h : validate name = .ok ()) (cs : List Char) : name.toList ≠ cs ++ ['-'] := by
  obtain ⟨-, -, -, c, hc, hcc⟩ := validate_eq_ok_iff.1 h
  intro he
  have hdash : c = '-' := by
    rw [he, List.getLast?_concat] at hc
    exact (Option.some.inj hc).symm
  rw [hdash] at hcc
  exact absurd hcc (by decide)

end Name

lemma Key.of?_eq_ok_iff {space name : String} {key : Key} :
    Key.of? space name = .ok key ↔
      Name.validate space = .ok () ∧ Name.validate name = .ok () ∧ key = ⟨space, name⟩ := by
  unfold of?
  cases Name.validate space with
  | error e => simp [bind, Except.bind]
  | ok _ =>
    cases Name.validate name with
    | error e => simp [bind, Except.bind]
    | ok _ => simp [bind, Except.bind, eq_comm]

end Timetable
