import Mathlib.Data.Nat.ModEq
import Mathlib.Tactic.Ring
import Timetable.Identity.Uid
import Timetable.Proofs.Identity.Name

/-!
# Reading back identifiers

The 26 digits of a UID hold its whole number, so a UID that was written is read back as it was.
-/

namespace Timetable.Uid

/-- The last digits of a number in base 32. -/
def digits (n count : Nat) : List Nat :=
  (List.range count).reverse.map fun i => n / Nat.pow 32 i % 32

lemma digits_succ (n count : Nat) : digits n (count + 1) = n / Nat.pow 32 count % 32 :: digits n count := by
  simp [digits, List.range_succ]

lemma lt_of_mem_digits {n count d : Nat} (h : d ∈ digits n count) : d < 32 := by
  obtain ⟨i, -, rfl⟩ := List.mem_map.1 h
  exact Nat.mod_lt _ (by decide)

/-- Digits that are read are appended to what was read before. -/
lemma foldl_digits (n count acc : Nat) :
    (digits n count).foldl (fun n d => 32 * n + d) acc = acc * 32 ^ count + n % 32 ^ count := by
  induction count generalizing acc with
  | zero => simp [digits, Nat.mod_one]
  | succ count ih =>
    rw [digits_succ, List.foldl_cons, ih, Nat.mod_pow_succ]
    simp only [Nat.pow_eq]
    ring

/-- The letter of a digit is read as that digit, and it takes one byte. -/
lemma digitOf?_letter {d : Nat} (h : d < 32) :
    digitOf? (alphabet.getD d '0') = some d ∧ (alphabet.getD d '0').utf8Size = 1 := by
  have hall : ∀ d : Fin 32,
      digitOf? (alphabet.getD d '0') = some d.val ∧ (alphabet.getD d '0').utf8Size = 1 := by decide
  exact hall ⟨d, h⟩

def letters (ds : List Nat) : List Char :=
  ds.map fun d => alphabet.getD d '0'

lemma ulid_eq (u : Uid) : u.ulid = String.ofList (letters (digits u.number digitCount)) := by
  rw [letters, digits, List.map_map]
  rfl

section
variable {ds : List Nat} (h : ∀ d ∈ ds, d < 32)
include h

lemma mapM_letters : (letters ds).mapM digitOf? = some ds := by
  induction ds with
  | nil => rfl
  | cons d ds ih =>
    have hd := (digitOf?_letter (h d List.mem_cons_self)).1
    have hds := ih fun e he => h e (List.mem_cons_of_mem _ he)
    rw [letters] at hds ⊢
    rw [List.map_cons, List.mapM_cons, hd, hds]
    rfl

lemma utf8ByteSize_letters : (String.ofList (letters ds)).utf8ByteSize = ds.length := by
  have hbytes : ∀ c ∈ letters ds, c.utf8Size = 1 := by
    intro c hc
    obtain ⟨d, hd, rfl⟩ := List.mem_map.1 hc
    exact (digitOf?_letter (h d hd)).2
  rw [Text.utf8ByteSize_eq_length hbytes, letters, List.length_map]

end

lemma ofNat_number (u : Uid) : ofNat u.number = u := by
  obtain ⟨n, hn⟩ := u
  simp only [ofNat, Nat.mod_eq_of_lt hn]

theorem parseUlid_ulid (u : Uid) : parseUlid u.ulid.toList = .ok u := by
  have hdigits : ∀ d ∈ digits u.number digitCount, d < 32 := fun _ => lt_of_mem_digits
  have hlength : (digits u.number digitCount).length = digitCount := by simp [digits]
  have hnumber : u.number.val % 32 ^ digitCount = u.number.val :=
    Nat.mod_eq_of_lt (u.number.isLt.trans (by decide))
  unfold parseUlid
  rw [ulid_eq, String.toList_ofList, utf8ByteSize_letters hdigits, hlength, mapM_letters hdigits]
  simp only [bne_self_eq_false, Bool.false_eq_true, if_false, foldl_digits, hnumber, Nat.zero_mul,
    Nat.zero_add, ofNat_number]

/-- A UID that was written is read back as it was. -/
theorem parse_render (u : Uid) : parse u.render = .ok u := by
  have htext : u.render.toList = 'u' :: 'i' :: 'd' :: '_' :: u.ulid.toList := by
    simp [render, tag]
  have hsplit : Text.splitFirst (· == '_') u.render.toList = some (['u', 'i', 'd'], u.ulid.toList) := by
    rw [htext]
    rfl
  have htag : String.ofList ['u', 'i', 'd'] = tag := rfl
  unfold parse
  rw [hsplit]
  simp only [htext, List.isEmpty_cons, Bool.false_eq_true, if_false, htag, if_true, parseUlid_ulid]
  rfl

end Timetable.Uid
