import Mathlib.Data.List.Basic
import Mathlib.Tactic.SplitIfs
import Timetable.Cron.Parser

/-!
# The values of a part

A part of a field gives two bounds and a stride. Its values are those in whole strides from the least one on, up to the
greatest. Reading a part is aborted exactly if its first stride leads past the largest word: a later stride starts so
low that it cannot, and nothing else in a part is too long to be held.
-/

namespace Timetable.Cron
open Text

/-! ## What aborts reading -/

/-- A computation does not fail on an overlong period. -/
def Holds {α : Type} (x : Except CronError α) : Prop :=
  x ≠ .error .overlongPeriod

namespace Holds
variable {α β : Type} {x y : Except CronError α} {f : α → Except CronError β}

lemma ok (a : α) : Holds (.ok a) :=
  nofun

lemma error {e : CronError} (h : e ≠ .overlongPeriod) : Holds (.error e : Except CronError α) :=
  fun heq => h (Except.error.inj heq)

lemma bind (hx : Holds x) (hf : ∀ a, Holds (f a)) : Holds (x >>= f) := by
  cases x with
  | error e => exact error fun he => hx (he ▸ rfl)
  | ok a => exact hf a

lemma map (hx : Holds x) (g : α → β) : Holds (x.map g) := by
  cases x with
  | error e => exact error fun he => hx (he ▸ rfl)
  | ok a => exact ok _

lemma ite {c : Prop} [Decidable c] (hx : Holds x) (hy : Holds y) : Holds (if c then x else y) := by
  split_ifs
  · exact hx
  · exact hy

end Holds

lemma parseValue_holds (field : Field) (raw : List Char) : Holds (parseValue field raw) := by
  unfold parseValue
  split
  · exact .ok _
  · split
    · exact .error nofun
    · exact .ite (.error nofun) (.ok _)

lemma parseStep_holds (field : Field) (part step : List Char) : Holds (parseStep field part step) := by
  unfold parseStep
  split
  · exact .ok _
  · exact .error nofun

lemma parseRange_holds (field : Field) (part range : List Char) (stepped : Bool) :
    Holds (parseRange field part range stepped) := by
  unfold parseRange
  split
  · exact .bind (parseValue_holds field _) fun lo => .bind (parseValue_holds field _) fun hi =>
      .ite (.error nofun) (.ok _)
  · exact .bind (parseValue_holds field _) fun lo => .ok _

/-! ## Strides -/

section
variable {hi step count lo v : Nat}

/-- The values in whole strides from the least one on. -/
def inStrides (hi step lo : Nat) : List Nat :=
  (List.range ((hi - lo) / step + 1)).map fun k => lo + k * step

lemma mem_inStrides (hstep : 1 ≤ step) (hle : lo ≤ hi) :
    v ∈ inStrides hi step lo ↔ v ≤ hi ∧ ∃ k, v = lo + k * step := by
  have hcount : ∀ k, k < (hi - lo) / step + 1 ↔ lo + k * step ≤ hi := by
    intro k
    rw [Nat.lt_succ_iff, Nat.le_div_iff_mul_le hstep]
    omega
  simp only [inStrides, List.mem_map, List.mem_range, hcount]
  constructor
  · rintro ⟨k, hk, rfl⟩
    exact ⟨hk, k, rfl⟩
  · rintro ⟨hv, k, rfl⟩
    exact ⟨k, hv, rfl⟩

lemma inStrides_of_lt (h : hi < lo + step) : inStrides hi step lo = [lo] := by
  have hnone : (hi - lo) / step = 0 := by
    rw [Nat.div_eq_zero_iff]
    omega
  rw [inStrides, hnone]
  simp

lemma inStrides_of_le (hstep : 1 ≤ step) (h : lo + step ≤ hi) :
    inStrides hi step lo = lo :: inStrides hi step (lo + step) := by
  have hcount : (hi - lo) / step = (hi - (lo + step)) / step + 1 := by
    rw [Nat.div_eq_sub_div hstep (by omega), Nat.sub_sub]
  have hshift : ∀ k, lo + (k + 1) * step = lo + step + k * step := by
    intro k
    rw [Nat.succ_mul]
    omega
  rw [inStrides, hcount, List.range_succ_eq_map]
  simp only [List.map_cons, List.map_map, Function.comp_def, Nat.succ_eq_add_one, hshift, Nat.zero_mul, Nat.add_zero,
    inStrides]

lemma strides_of_lt (h : hi < lo) : strides hi step count lo = .ok [] := by
  cases count with
  | zero => rfl
  | succ count => exact if_pos h

/-- All strides stay within a word if the first one does. -/
theorem strides_eq (hstep : 1 ≤ step) (hhi : 2 * hi ≤ max32) (hle : lo ≤ hi) (hcount : hi < count + lo) :
    strides hi step count lo =
      if lo + step ≤ max32 then .ok (inStrides hi step lo) else .error .overlongPeriod := by
  induction count generalizing lo with
  | zero => omega
  | succ count ih =>
    rw [strides, if_neg (Nat.not_lt.2 hle)]
    by_cases hword : lo + step ≤ max32
    · rw [if_pos hword, if_neg (Nat.not_lt.2 hword)]
      by_cases hnext : lo + step ≤ hi
      · rw [ih hnext (by omega), if_pos (by omega), inStrides_of_le hstep hnext]
        rfl
      · rw [strides_of_lt (Nat.not_le.1 hnext), inStrides_of_lt (Nat.not_le.1 hnext)]
        rfl
    · rw [if_neg hword, if_pos (Nat.not_le.1 hword)]

end

/-! ## Bounds -/

/-- What the values of a part run through. -/
structure Bounds where
  lo : Nat
  hi : Nat
  stride : Nat
  star : Bool

namespace Bounds

/-- A value lies in whole strides from the least one. -/
def Steps (b : Bounds) (v : Nat) : Prop :=
  v ≤ b.hi ∧ ∃ k, v = b.lo + k * b.stride

/-- The first stride stays within a word. -/
def InWord (b : Bounds) : Prop :=
  b.lo + b.stride ≤ max32

instance (b : Bounds) : Decidable b.InWord := inferInstanceAs (Decidable (b.lo + b.stride ≤ max32))

/-- The values that the bounds stand for. -/
def values (b : Bounds) : FieldSet :=
  ⟨inStrides b.hi b.stride b.lo, b.star⟩

/-- The values as they are met. -/
def read (b : Bounds) : Except CronError FieldSet :=
  (strides b.hi b.stride (b.hi + 1) b.lo).map (⟨·, b.star⟩)

end Bounds

/-- The bounds that a part of a field gives. -/
def partBounds (field : Field) (part : List Char) : Except CronError Bounds :=
  match splitFirst (· == '/') part with
  | some (range, step) => do
    let stride ← parseStep field part step
    if isWildcard field range then .ok ⟨field.lowest, field.wildcardEnd, stride, stride == 1⟩
    else do
      let (lo, hi) ← parseRange field part range true
      .ok ⟨lo, hi, stride, false⟩
  | none =>
    if isWildcard field part then .ok ⟨field.lowest, field.wildcardEnd, 1, true⟩
    else do
      let (lo, hi) ← parseRange field part part false
      .ok ⟨lo, hi, 1, false⟩

section
variable {field : Field} {part range raw step : List Char} {stepped : Bool} {b : Bounds} {lo hi v n : Nat}

lemma parsePart_eq (field : Field) (part : List Char) :
    parsePart field part = (partBounds field part).bind Bounds.read := by
  unfold parsePart partBounds Bounds.read
  simp only [bind, Except.bind]
  cases hslash : splitFirst (· == '/') part with
  | none =>
    dsimp only [Option.getD, Option.isSome]
    split_ifs
    · rfl
    · cases parseRange field part part false <;> rfl
  | some cut =>
    obtain ⟨range, step⟩ := cut
    dsimp only
    cases parseStep field part step with
    | error e => rfl
    | ok stride =>
      dsimp only [Option.getD, Option.isSome]
      split_ifs
      · rfl
      · cases parseRange field part range true <;> rfl

lemma partBounds_holds (field : Field) (part : List Char) : Holds (partBounds field part) := by
  unfold partBounds
  split
  · exact .bind (parseStep_holds field part _) fun stride =>
      .ite (.ok _) (.bind (parseRange_holds field part _ _) fun bounds => .ok _)
  · exact .ite (.ok _) (.bind (parseRange_holds field part _ _) fun bounds => .ok _)

lemma parseValue_bounds (h : parseValue field raw = .ok v) : field.lowest ≤ v ∧ v ≤ field.highest := by
  unfold parseValue at h
  split at h
  · rename_i i hi
    obtain ⟨hlt, -⟩ := List.findIdx?_eq_some_iff_getElem.1 hi
    obtain rfl := Except.ok.inj h
    refine ⟨Nat.le_add_left _ _, ?_⟩
    cases field
    all_goals
      simp only [Field.names, Field.lowest, Field.highest, List.length_cons, List.length_nil] at hlt ⊢
      omega
  · split at h
    · simp at h
    · split_ifs at h with hout
      obtain rfl := Except.ok.inj h
      omega

lemma parseStep_bounds (h : parseStep field part step = .ok n) : 1 ≤ n := by
  unfold parseStep at h
  split at h
  · rename_i m _
    obtain rfl := Except.ok.inj h
    exact Nat.le_add_left 1 m
  · simp at h

lemma parseRange_bounds (h : parseRange field part range stepped = .ok (lo, hi)) :
    lo ≤ hi ∧ hi ≤ field.highest := by
  unfold parseRange at h
  simp only [bind, Except.bind] at h
  split at h
  · split at h
    · simp at h
    · split at h
      · simp at h
      · rename_i hhi
        split_ifs at h with hlt
        obtain ⟨rfl, rfl⟩ := Prod.mk.inj (Except.ok.inj h)
        exact ⟨Nat.not_lt.1 hlt, (parseValue_bounds hhi).2⟩
  · split at h
    · simp at h
    · rename_i hlo
      obtain ⟨rfl, rfl⟩ := Prod.mk.inj (Except.ok.inj h)
      split_ifs
      · exact ⟨(parseValue_bounds hlo).2, Nat.le_refl _⟩
      · exact ⟨Nat.le_refl _, (parseValue_bounds hlo).2⟩

lemma wildcard_bounds (field : Field) :
    field.lowest ≤ field.wildcardEnd ∧ field.wildcardEnd ≤ field.highest := by
  cases field <;> decide

lemma highest_le (field : Field) : field.highest ≤ 59 := by
  cases field <;> decide

/-- The bounds of a part lie in the field, and its stride leads on. -/
lemma partBounds_spec (h : partBounds field part = .ok b) :
    b.lo ≤ b.hi ∧ b.hi ≤ field.highest ∧ 1 ≤ b.stride := by
  unfold partBounds at h
  simp only [bind, Except.bind] at h
  split at h
  · split at h
    · simp at h
    · rename_i hstep
      have hpos := parseStep_bounds hstep
      split_ifs at h
      · obtain rfl := Except.ok.inj h
        exact ⟨(wildcard_bounds field).1, (wildcard_bounds field).2, hpos⟩
      · split at h
        · simp at h
        · rename_i hrange
          obtain rfl := Except.ok.inj h
          exact ⟨(parseRange_bounds hrange).1, (parseRange_bounds hrange).2, hpos⟩
  · split_ifs at h
    · obtain rfl := Except.ok.inj h
      exact ⟨(wildcard_bounds field).1, (wildcard_bounds field).2, Nat.le_refl 1⟩
    · split at h
      · simp at h
      · rename_i hrange
        obtain rfl := Except.ok.inj h
        exact ⟨(parseRange_bounds hrange).1, (parseRange_bounds hrange).2, Nat.le_refl 1⟩

/-! ## Reading a part -/

/-- The values of a part are met as they should, or its first stride leaves the word. -/
theorem read_of_partBounds (h : partBounds field part = .ok b) :
    b.read = if b.InWord then .ok b.values else .error .overlongPeriod := by
  obtain ⟨hle, hhi, hpos⟩ := partBounds_spec h
  have hfield := highest_le field
  have hsmall : 2 * b.hi ≤ max32 := by
    unfold max32
    omega
  have hmet : strides b.hi b.stride (b.hi + 1) b.lo =
      if b.InWord then .ok (inStrides b.hi b.stride b.lo) else .error .overlongPeriod :=
    strides_eq hpos hsmall hle (by omega)
  rw [Bounds.read, hmet]
  split_ifs
  · rfl
  · rfl

lemma mem_values_of_partBounds (h : partBounds field part = .ok b) : v ∈ b.values.values ↔ b.Steps v := by
  obtain ⟨hle, -, hpos⟩ := partBounds_spec h
  exact mem_inStrides hpos hle

end

end Timetable.Cron
