import Mathlib.Algebra.Order.Ring.Nat
import Timetable.Proofs.Queue.Operations

/-!
# Delays double up to a ceiling

The delay is the base doubled with every failure, up to the ceiling and to what fits in a result: that the doublings
are cut and the product may not fit in its word makes no difference. The failures counted for a key are the calls
for it since it was last forgotten, whatever happened to other keys in between.
-/

namespace Timetable

namespace BackoffPolicy

/-- Where the doublings are cut the result is full already, unless the base is zero. -/
lemma doublings_cut (base n : Nat) :
    base * 2 ^ min n doublings = base * 2 ^ n ∨
      Text.max64 < base * 2 ^ min n doublings ∧ Text.max64 < base * 2 ^ n := by
  obtain hle | hlt := le_or_gt n doublings
  · rw [min_eq_left hle]
    exact Or.inl rfl
  · obtain rfl | hpos := base.eq_zero_or_pos
    · simp
    · have hword : Text.max64 < 2 ^ doublings := by decide
      have hcut : 2 ^ doublings ≤ base * 2 ^ doublings := Nat.le_mul_of_pos_left _ hpos
      have hmore : base * 2 ^ doublings ≤ base * 2 ^ n :=
        Nat.mul_le_mul_left _ (Nat.pow_le_pow_right (by decide) hlt.le)
      rw [min_eq_right hlt.le]
      omega

theorem delay_eq (p : BackoffPolicy) (n : Nat) :
    p.delay n = min (p.base * 2 ^ n) (min p.max Text.max64) := by
  have hword : Text.max64 < 2 ^ 128 := by decide
  have hcut := doublings_cut p.base n
  unfold delay
  simp only [Nat.pow_eq]
  generalize p.base * 2 ^ min n doublings = product at *
  generalize p.base * 2 ^ n = doubled at *
  split_ifs with hfits
  · omega
  · omega

lemma delay_le (p : BackoffPolicy) (n : Nat) : p.delay n ≤ min (p.base * 2 ^ n) p.max := by
  rw [delay_eq, ← min_assoc]
  exact min_le_left _ _

lemma monotone_delay (p : BackoffPolicy) : Monotone p.delay := by
  intro m n hmn
  rw [delay_eq, delay_eq]
  exact min_le_min_right _ (Nat.mul_le_mul_left _ (Nat.pow_le_pow_right (by decide) hmn))

/-! ## Words -/

/-- The longest span of the clock is below 2⁶⁴ seconds. -/
def InRange (p : BackoffPolicy) : Prop :=
  p.base < 2 ^ 64 * giga ∧ p.max < 2 ^ 64 * giga

/-- The delay before it is cut to 64 bits, in words of 128 bits. Where the product overflows, the ceiling holds. -/
def cappedWord (p : BackoffPolicy) (attempt : BitVec 32) : BitVec 128 :=
  let base := BitVec.ofNat 128 p.base
  let ceiling := BitVec.ofNat 128 p.max
  let factor := 1#128 <<< min attempt.toNat doublings
  if base.umulOverflow factor then ceiling
  else if base * factor ≤ ceiling then base * factor else ceiling

/-- The delay as it is computed in words, given in one of 64 bits. -/
def wordDelay (p : BackoffPolicy) (attempt : BitVec 32) : BitVec 64 :=
  if p.cappedWord attempt ≤ BitVec.ofNat 128 Text.max64 then (p.cappedWord attempt).setWidth 64
  else BitVec.ofNat 64 Text.max64

lemma toNat_factor (n : Nat) : (1#128 <<< min n doublings).toNat = 2 ^ min n doublings := by
  have hone : (1#128).toNat = 1 := rfl
  have hshort : 2 ^ min n doublings < 2 ^ 128 :=
    Nat.pow_lt_pow_right (by decide) ((min_le_right n doublings).trans_lt (by decide))
  rw [BitVec.toNat_shiftLeft, Nat.shiftLeft_eq, hone, one_mul, Nat.mod_eq_of_lt hshort]

variable {p : BackoffPolicy}

/-- The words hold the spans and the product, where the product is used. -/
lemma toNat_cappedWord (h : p.InRange) (n : BitVec 32) :
    (p.cappedWord n).toNat =
      if p.base * 2 ^ min n.toNat doublings < 2 ^ 128 then min (p.base * 2 ^ min n.toNat doublings) p.max
      else p.max := by
  have hrange : 2 ^ 64 * giga < 2 ^ 128 := by decide
  have hbase : (BitVec.ofNat 128 p.base).toNat = p.base := by
    rw [BitVec.toNat_ofNat, Nat.mod_eq_of_lt (h.1.trans hrange)]
  have hceiling : (BitVec.ofNat 128 p.max).toNat = p.max := by
    rw [BitVec.toNat_ofNat, Nat.mod_eq_of_lt (h.2.trans hrange)]
  unfold cappedWord
  simp only [BitVec.umulOverflow, BitVec.le_def, BitVec.toNat_mul, hbase, toNat_factor, hceiling,
    decide_eq_true_eq, ge_iff_le]
  by_cases hfits : p.base * 2 ^ min n.toNat doublings < 2 ^ 128
  · rw [if_neg (Nat.not_le.2 hfits), if_pos hfits, Nat.mod_eq_of_lt hfits]
    split_ifs with hle
    · rw [BitVec.toNat_mul, hbase, toNat_factor, Nat.mod_eq_of_lt hfits, min_eq_left hle]
    · rw [hceiling, min_eq_right (Nat.le_of_not_le hle)]
  · rw [if_pos (Nat.le_of_not_lt hfits), if_neg hfits, hceiling]

/-- No step of the computation in words loses anything. -/
theorem toNat_wordDelay (h : p.InRange) (n : BitVec 32) : (p.wordDelay n).toNat = p.delay n.toNat := by
  have hfull : (BitVec.ofNat 128 Text.max64).toNat = Text.max64 := by decide
  have hlast : (BitVec.ofNat 64 Text.max64).toNat = Text.max64 := by decide
  have hdelay : p.delay n.toNat = min (p.cappedWord n).toNat Text.max64 := by
    rw [toNat_cappedWord h]
    rfl
  unfold wordDelay
  rw [hdelay]
  split_ifs with hle <;> rw [BitVec.le_def, hfull] at hle
  · rw [BitVec.toNat_setWidth, Nat.mod_eq_of_lt (hle.trans_lt (by decide)), min_eq_left hle]
  · rw [hlast, min_eq_right (Nat.le_of_not_le hle)]

end BackoffPolicy

/-! ## Counting failures -/

namespace Failures
variable {κ : Type} [DecidableEq κ]

section
variable (f : Failures κ) (j k : κ)

lemma lookup_forget : (f.forget k).counts.lookup j = if j = k then none else f.counts.lookup j := by
  rw [forget, WorkQueue.lookup_filter_key _ (fun i => i ≠ k)]
  by_cases hj : j = k
  · simp [hj]
  · simp [hj]

lemma lookup_record : (f.record k).2.counts.lookup j =
    if j = k then some (min (f.count k + 1) Text.max32) else f.counts.lookup j := by
  unfold record
  dsimp only
  rw [WorkQueue.lookup_cons_eq_ite, lookup_forget]
  by_cases hj : j = k
  · rw [if_pos hj, if_pos hj]
  · rw [if_neg hj, if_neg hj, if_neg hj]

lemma count_forget : (f.forget k).count k = 0 := by
  simp [count, lookup_forget]

lemma count_record : (f.record k).2.count k = min (f.count k + 1) Text.max32 := by
  rw [count, lookup_record, if_pos rfl, Option.getD_some]

lemma count_forget_of_ne (h : j ≠ k) : (f.forget k).count j = f.count j := by
  rw [count, lookup_forget, if_neg h, count]

lemma count_record_of_ne (h : j ≠ k) : (f.record k).2.count j = f.count j := by
  rw [count, lookup_record, if_neg h, count]

end

inductive Call (κ : Type)
  | record (k : κ)
  | forget (k : κ)
  deriving DecidableEq

def Call.key : Call κ → κ
  | record k => k
  | forget k => k

omit [DecidableEq κ] in
@[simp]
lemma Call.key_record (k : κ) : (record k).key = k := rfl

omit [DecidableEq κ] in
@[simp]
lemma Call.key_forget (k : κ) : (forget k).key = k := rfl

/-- What is left of some calls, the last one first. -/
def after (policy : BackoffPolicy) : List (Call κ) → Failures κ
  | [] => .new policy
  | .record k :: earlier => ((after policy earlier).record k).2
  | .forget k :: earlier => (after policy earlier).forget k

/-- How often a key has failed since it was last forgotten. -/
def sinceForgotten (k : κ) (calls : List (Call κ)) : Nat :=
  (calls.takeWhile (· ≠ .forget k)).count (.record k)

variable {policy : BackoffPolicy} {j k : κ}

lemma sinceForgotten_record (j k : κ) (calls : List (Call κ)) :
    sinceForgotten k (.record j :: calls) = sinceForgotten k calls + if j = k then 1 else 0 := by
  unfold sinceForgotten
  rw [List.takeWhile_cons_of_pos (by simp), List.count_cons]
  simp

lemma sinceForgotten_forget (j k : κ) (calls : List (Call κ)) :
    sinceForgotten k (.forget j :: calls) = if j = k then 0 else sinceForgotten k calls := by
  unfold sinceForgotten
  split_ifs with hj
  · rw [hj, List.takeWhile_cons_of_neg (by simp), List.count_nil]
  · rw [List.takeWhile_cons_of_pos (by simpa using hj), List.count_cons_of_ne (by simp)]

/-- Calls for other keys do not matter. -/
lemma sinceForgotten_filter (k : κ) (calls : List (Call κ)) :
    sinceForgotten k (calls.filter (·.key = k)) = sinceForgotten k calls := by
  induction calls with
  | nil => rfl
  | cons call calls ih =>
    cases call with
    | record j =>
      rw [sinceForgotten_record, List.filter_cons]
      by_cases hj : j = k
      · simp [hj, sinceForgotten_record, ih]
      · simp [hj, ih]
    | forget j =>
      rw [sinceForgotten_forget, List.filter_cons]
      by_cases hj : j = k
      · simp [hj, sinceForgotten_forget]
      · simp [hj, ih]

lemma policy_after (calls : List (Call κ)) : (after policy calls).policy = policy := by
  induction calls with
  | nil => rfl
  | cons call calls ih => cases call <;> exact ih

theorem count_after (k : κ) (calls : List (Call κ)) :
    (after policy calls).count k = min (sinceForgotten k calls) Text.max32 := by
  induction calls with
  | nil => rfl
  | cons call calls ih =>
    cases call with
    | record j =>
      rw [after, sinceForgotten_record]
      by_cases hj : j = k
      · rw [hj, count_record, ih, if_pos rfl]
        omega
      · rw [count_record_of_ne _ _ _ (Ne.symm hj), ih, if_neg hj, Nat.add_zero]
    | forget j =>
      rw [after, sinceForgotten_forget]
      by_cases hj : j = k
      · rw [hj, count_forget, if_pos rfl, Nat.zero_min]
      · rw [count_forget_of_ne _ _ _ (Ne.symm hj), ih, if_neg hj]

/-- The delay is the base doubled with every failure, up to the ceiling and the largest word. After any calls the
next delay of a key is that of its failures since it was last forgotten, as far as they can be counted. -/
theorem delays_double (policy : BackoffPolicy) (calls : List (Call κ)) (k : κ) :
    (∀ n, policy.delay n = min (policy.base * 2 ^ n) (min policy.max Text.max64)) ∧
    (policy.InRange → ∀ n, (policy.wordDelay n).toNat = policy.delay n.toNat) ∧
    (∀ n, policy.delay n ≤ policy.max) ∧ Monotone policy.delay ∧
    (after policy calls).count k = min (sinceForgotten k calls) Text.max32 ∧
    ((after policy calls).record k).1 = policy.delay ((after policy calls).count k) ∧
    (after policy calls).count k = (after policy (calls.filter (·.key = k))).count k := by
  have hdelay : ((after policy calls).record k).1 = policy.delay ((after policy calls).count k) := by
    rw [record, policy_after]
  have hceiling : ∀ n, policy.delay n ≤ policy.max := fun n => (policy.delay_le n).trans (min_le_right _ _)
  have hothers : (after policy calls).count k = (after policy (calls.filter (·.key = k))).count k := by
    rw [count_after, count_after, sinceForgotten_filter]
  exact ⟨policy.delay_eq, fun h => BackoffPolicy.toNat_wordDelay h, hceiling, policy.monotone_delay,
    count_after k calls, hdelay, hothers⟩

/-- The first key has failed, was forgotten and has failed again, while the second one failed too. -/
def forgotten : List (Call Nat) :=
  [.record 1, .forget 2, .record 1, .forget 1, .record 2, .record 1]

/-- After eighteen failures the ceiling holds; a key that was forgotten starts from the base again. -/
theorem delays_double_forgotten :
    BackoffPolicy.standard.InRange ∧
    (∀ n, (BackoffPolicy.standard.wordDelay n).toNat = BackoffPolicy.standard.delay n.toNat) ∧
    BackoffPolicy.standard.wordDelay 17 = 655360000000 ∧ BackoffPolicy.standard.wordDelay 18 = 1000000000000 ∧
    (after .standard forgotten).count 1 = 2 ∧ ((after .standard forgotten).record 1).1 = 20000000 := by
  have hrange : BackoffPolicy.standard.InRange := ⟨by decide, by decide⟩
  obtain ⟨-, hwords, -, -, hcount, hdelay, -⟩ := delays_double .standard forgotten 1
  have htwo : (after .standard forgotten).count 1 = 2 := hcount.trans (by decide)
  exact ⟨hrange, hwords hrange, by decide, by decide, htwo, by rw [hdelay, htwo]; decide⟩

end Failures

end Timetable
