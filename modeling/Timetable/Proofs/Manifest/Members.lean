import Timetable.Manifest.Reader
import Timetable.Manifest.Writer
import Timetable.Proofs.Calendar.Lenient
import Timetable.Proofs.Identity.Uid

/-!
# Values and members

Each value that a manifest holds is read back as it was written, if it is one that can be read at all. The
members of a structure are found under their names, whatever stands before and after them.
-/

namespace Timetable

namespace Json

/-! ## Members -/

@[simp]
lemma member?_nil (name : String) : member? name [] = none := rfl

@[simp]
lemma member?_cons (name : String) (m : String × Json) (rest : List (String × Json)) :
    member? name (m :: rest) = if m.1 = name then some m.2 else member? name rest := by
  by_cases h : m.1 = name <;> simp [member?, h]

@[simp]
lemma member?_append (name : String) (xs ys : List (String × Json)) :
    member? name (xs ++ ys) = (member? name xs).or (member? name ys) := by
  simp [member?, List.find?_append, Option.map_or]

end Json

namespace Manifest
open Json

@[simp]
lemma member?_optional {α : Type} (name key : String) (write : α → Json) (a : Option α) :
    member? name (optional key write a) = if key = name then a.map write else none := by
  cases a <;> simp [optional]

@[simp]
lemma member?_nonempty {α : Type} (name key : String) (write : α → Json) (xs : List α) :
    member? name (nonempty key write xs) =
      if key = name ∧ xs ≠ [] then some (.arr (xs.map write)) else none := by
  cases xs <;> simp [nonempty]

def labelMembers (labels : Labels) : List (String × Json) :=
  labels.toList.map fun e => (e.1, .str e.2)

lemma writeLabels_eq (name : String) (labels : Labels) :
    writeLabels name labels = if labels.isEmpty then [] else [(name, .obj (labelMembers labels))] := rfl

@[simp]
lemma member?_writeLabels (name key : String) (labels : Labels) :
    member? name (writeLabels key labels) =
      if key = name ∧ labels.isEmpty = false then some (.obj (labelMembers labels)) else none := by
  rw [writeLabels_eq]
  split_ifs <;> simp_all

/-! ## Values -/

lemma readInt_int {lo hi n : Int} (h : lo ≤ n ∧ n ≤ hi) (word : String) :
    readInt lo hi word (.int n) = .ok n :=
  if_pos h

lemma readWord32_write {n : Nat} (h : n ≤ Text.max32) : readWord32 (writeNat n) = .ok n := by
  unfold readWord32 writeNat
  rw [readInt_int (by omega)]
  rfl

lemma readWord64_write {n : Nat} (h : n ≤ Text.max64) : readWord64 (writeNat n) = .ok n := by
  unfold readWord64 writeNat
  rw [readInt_int (by omega)]
  rfl

lemma readTime_write {t : Instant} (h : t.Civil) : readTime (writeTime t) = .ok t := by
  simp only [readTime, writeTime, Instant.readLenient_render h]
  rfl

lemma readUid_write (u : Uid) : readUid (.str u.render) = .ok u := by
  simp only [readUid, readString, bind, Except.bind, Uid.parse_render]
  rfl

lemma ofList_toList (labels : Labels) : (.ofList labels.toList : Labels) = labels := by
  refine Std.ExtTreeMap.ext_getElem? fun k => ?_
  cases hk : labels[k]? with
  | some v =>
    exact Std.ExtTreeMap.getElem?_ofList_of_mem (Std.ReflCmp.compare_self)
      Std.ExtTreeMap.distinct_keys_toList (Std.ExtTreeMap.mem_toList_iff_getElem?_eq_some.2 hk)
  | none =>
    refine Std.ExtTreeMap.getElem?_ofList_of_contains_eq_false ?_
    simp only [Std.ExtTreeMap.map_fst_toList_eq_keys]
    simpa using hk

/-- A label with its value. -/
def readEntry (m : String × Json) : Read (String × String) := do
  .ok (m.1, ← readString m.2)

lemma mapM_readEntry (entries : List (String × String)) :
    (entries.map fun e => (e.1, Json.str e.2)).mapM readEntry = .ok entries := by
  induction entries with
  | nil => rfl
  | cons e entries ih =>
    rw [List.map_cons, List.mapM_cons, ih]
    rfl

lemma readLabels_write (labels : Labels) : readLabels (.obj (labelMembers labels)) = .ok labels := by
  have hread : readLabels (.obj (labelMembers labels)) =
      (labelMembers labels).mapM readEntry >>= fun entries => .ok (.ofList entries) := rfl
  rw [hread, labelMembers, mapM_readEntry]
  exact congrArg Except.ok (ofList_toList labels)

lemma readOptional_write {α : Type} {read : Json → Read α} {write : α → Json} {a : α}
    (h : read (write a) = .ok a) (hnull : write a ≠ .null) :
    readOptional read (write a) = .ok (some a) := by
  unfold readOptional
  split
  next hw => exact absurd hw hnull
  next => rw [h]; rfl

lemma readList_write {α : Type} {read : Json → Read α} {write : α → Json} {xs : List α}
    (h : ∀ a ∈ xs, read (write a) = .ok a) : readList read (.arr (xs.map write)) = .ok xs := by
  unfold readList
  dsimp only
  induction xs with
  | nil => rfl
  | cons a xs ih =>
    have ha := h a List.mem_cons_self
    have hxs := ih fun b hb => h b (List.mem_cons_of_mem _ hb)
    rw [List.map_cons, List.mapM_cons, ha, hxs]
    rfl

lemma readVariant_name {α : Type} {known : List α} {name : α → String} {a : α}
    (h : known.find? (name · == name a) = some a) : readVariant known name (.str (name a)) = .ok a := by
  simp only [readVariant, h]

/-! ## Members that are given -/

lemma given_eq {α : Type} {read : Json → Read α} {ms : List (String × Json)} {name : String} {j : Json}
    {a : α} (h : member? name ms = some j) (hread : read j = .ok a) : given ms name read = .ok (some a) := by
  simp only [given, h, hread]
  rfl

/-- A member, or the value that stands for it when it is left out. -/
def Finds {α : Type} (ms : List (String × Json)) (name : String) (read : Json → Read α) (open? a : α) :
    Prop :=
  ∃ found, given ms name read = .ok found ∧ found.getD open? = a

section
variable {α : Type} {read : Json → Read α} {write : α → Json} {ms : List (String × Json)} {name : String}

lemma finds_labels {labels : Labels} (h : member? name ms = member? name (writeLabels name labels)) :
    Finds ms name readLabels ∅ labels := by
  rw [member?_writeLabels] at h
  split_ifs at h with hgiven
  · exact ⟨_, given_eq h (readLabels_write labels), rfl⟩
  · refine ⟨none, by simp only [given, h], ?_⟩
    have hempty : labels.isEmpty = true := by simpa using hgiven
    exact (Std.ExtTreeMap.isEmpty_iff.1 hempty).symm

lemma finds_nonempty {xs : List α} (h : member? name ms = member? name (nonempty name write xs))
    (hread : ∀ a ∈ xs, read (write a) = .ok a) : Finds ms name (readList read) [] xs := by
  rw [member?_nonempty] at h
  split_ifs at h with hgiven
  · exact ⟨_, given_eq h (readList_write hread), rfl⟩
  · refine ⟨none, by simp only [given, h], ?_⟩
    simpa [eq_comm] using hgiven

lemma finds_optional {a : Option α} (h : member? name ms = a.map write)
    (hread : ∀ x ∈ a, read (write x) = .ok x) (hnull : ∀ x, write x ≠ .null) :
    Finds ms name (readOptional read) none a := by
  cases a with
  | none => exact ⟨none, by simp only [given, h, Option.map_none], rfl⟩
  | some x => exact ⟨_, given_eq h (readOptional_write (hread x rfl) (hnull x)), rfl⟩

end

/-! ## What is read -/

/-- What stands for a member that is left out has the property as well. -/
lemma getD_of_mem {α : Type} {p : α → Prop} {a : Option α} (h : ∀ x ∈ a, p x) {open? : α}
    (hopen : p open?) : p (a.getD open?) := by
  cases a with
  | none => exact hopen
  | some x => exact h x rfl

end Manifest

namespace Gives
open Manifest

section
variable {ε δ α β : Type} {p : α → Prop}

lemma map {x : Except ε β} {f : β → α} (h : Gives (fun b => p (f b)) x) : Gives p (x.map f) := by
  cases x with
  | error e => exact nofun
  | ok b => exact .ok (h b rfl)

lemma mapError {x : Except ε α} {f : ε → δ} (h : Gives p x) : Gives p (x.mapError f) := by
  cases x with
  | error e => exact nofun
  | ok a => exact .ok (h a rfl)

end

section
variable {α : Type} {p : α → Prop} {read : Json → Read α}

lemma optional (h : ∀ j, Gives p (read j)) (j : Json) :
    Gives (fun a => ∀ x ∈ a, p x) (readOptional read j) := by
  unfold readOptional
  split
  · exact .ok (by simp)
  · exact .map fun a ha => by simpa using h _ a ha

lemma member (h : ∀ j, Gives p (read j)) (ms : List (String × Json)) (name : String) :
    Gives (fun a => ∀ x ∈ a, p x) (Manifest.given ms name read) := by
  unfold Manifest.given
  split
  · exact .ok (by simp)
  · exact .map fun a ha => by simpa using h _ a ha

lemma item (h : ∀ j, Gives p (read j)) (xs : Items) (i : Nat) :
    Gives (fun a => ∀ x ∈ a, p x) (xs.given i read) := by
  unfold Items.given
  split
  · exact .ok (by simp)
  · exact .map fun a ha => by simpa using h _ a ha

lemma required {a : Option α} (h : ∀ x ∈ a, p x) (name : String) : Gives p (Manifest.required name a) := by
  cases a with
  | none => exact .error _
  | some x => exact .ok (h x rfl)

lemma requiredItem (h : ∀ j, Gives p (read j)) (xs : Items) (i : Nat) : Gives p (xs.required i read) := by
  refine .bind fun a ha => ?_
  cases a with
  | none => exact .error _
  | some x => exact .ok (item h xs i _ ha x rfl)

lemma struct {type : String} {size : Nat} {ofMembers : List (String × Json) → Read α}
    {ofItems : Items → Read α} (hms : ∀ ms, Gives p (ofMembers ms)) (hxs : ∀ xs, Gives p (ofItems xs))
    (j : Json) : Gives p (readStruct type size ofMembers ofItems j) := by
  unfold readStruct
  split
  · exact hms _
  · exact .bind fun a ha => .ite (fun _ => .error _) fun _ => .ok (hxs _ a ha)
  · exact .error _

end

lemma int (lo hi : Int) (word : String) (j : Json) :
    Gives (fun n => lo ≤ n ∧ n ≤ hi) (readInt lo hi word j) := by
  unfold readInt
  split
  · exact .ite (fun h => .ok h) fun _ => .error _
  · exact .error _

lemma word32 (j : Json) : Gives (· ≤ Text.max32) (readWord32 j) := by
  refine .map fun n hn => ?_
  have hbounds := int _ _ _ _ n hn
  omega

lemma word64 (j : Json) : Gives (· ≤ Text.max64) (readWord64 j) := by
  refine .map fun n hn => ?_
  have hbounds := int _ _ _ _ n hn
  omega

lemma time (j : Json) : Gives Instant.Civil (readTime j) := by
  unfold readTime
  split
  · exact .mapError (Instant.readLenient_gives _)
  · exact .error _

end Gives

end Timetable
