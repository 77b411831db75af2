import Mathlib
import Timetable.Proofs.Cron.Strides
import Timetable.Proofs.Text.Numeral
import Timetable.Proofs.Text.Split

/-!
# What the text of a field means

The texts of five fields are given by a grammar, with the bounds that each part stands for. A text is read exactly if
the grammar has it and no first stride leads past the largest word, and the values that are read are those in whole
strides between the bounds. Reading goes from left to right, and it is aborted at the first part whose stride leads too
far if all parts before that one are read.
-/

namespace Timetable.Cron
open Text

/-! ## The grammar -/

/-- A text names a value in any ASCII case, or is a numeral of one. -/
inductive IsValue (field : Field) (raw : List Char) : Nat → Prop
  | name {i : Nat} {name : String} (h : field.names[i]? = some name)
      (hcase : raw.map Char.toUpper = name.toList) : IsValue field raw (i + field.lowest)
  | numeral {n : Nat} (h : IsNumeral raw n) (hlow : field.lowest ≤ n) (hhigh : n ≤ field.highest) :
      IsValue field raw n

/-- A text is a range between two bounds, which may be a wildcard. Before a step a single value runs to the end of
the field. -/
inductive IsRange (field : Field) (stepped : Bool) :
    (range : List Char) → (lo hi : Nat) → (wildcard : Bool) → Prop
  | star : IsRange field stepped ['*'] field.lowest field.wildcardEnd true
  | any (h : field.isDay) : IsRange field stepped ['?'] field.lowest field.wildcardEnd true
  | single {raw : List Char} {v : Nat} (h : IsValue field raw v) :
      IsRange field stepped raw v (if stepped then field.highest else v) false
  | span {first last : List Char} {lo hi : Nat} (hlo : IsValue field first lo) (hhi : IsValue field last hi)
      (hle : lo ≤ hi) : IsRange field stepped (first ++ '-' :: last) lo hi false

/-- A text is a range, or a range and a step. -/
inductive IsPart (field : Field) : (part : List Char) → Bounds → Prop
  | plain {range : List Char} {lo hi : Nat} {wildcard : Bool} (h : IsRange field false range lo hi wildcard) :
      IsPart field range ⟨lo, hi, 1, wildcard⟩
  | stepped {range step : List Char} {lo hi n : Nat} {wildcard : Bool}
      (h : IsRange field true range lo hi wildcard) (hstep : IsNumeral step n) (hpos : 1 ≤ n)
      (hword : n ≤ max32) : IsPart field (range ++ '/' :: step) ⟨lo, hi, n, wildcard && n == 1⟩

/-- A text is a row of parts between commas. -/
def IsList (field : Field) (raw : List Char) (bs : List Bounds) : Prop :=
  List.Forall₂ (IsPart field) (raw.splitOn ',') bs

/-- The fields in the order of their texts. -/
def Field.all : List Field :=
  [.minute, .hour, .dayOfMonth, .month, .dayOfWeek]

/-- The texts between blanks. -/
def fieldTexts (body : List Char) : List (List Char) :=
  (body.splitOnP isBlank).filter fun w => !w.isEmpty

/-- A text is a row of lists between blanks, one for each field. -/
def IsBody (body : List Char) (bounds : Field → List Bounds) : Prop :=
  List.Forall₂ (fun field raw => IsList field raw (bounds field)) Field.all (fieldTexts body)

/-! ## Texts that abort reading -/

/-- One of a row fails, and all before it pass. -/
inductive FailsAt {α : Type} (Passes Fails : α → Prop) : List α → Prop
  | here {x : α} {xs : List α} (h : Fails x) : FailsAt Passes Fails (x :: xs)
  | later {x : α} {xs : List α} (hx : Passes x) (h : FailsAt Passes Fails xs) : FailsAt Passes Fails (x :: xs)

/-- A part stands for bounds, and its first stride stays within a word. -/
def FitsPart (field : Field) (part : List Char) : Prop :=
  ∃ b, IsPart field part b ∧ b.InWord

/-- A part stands for bounds, but its first stride leads past the largest word. -/
def OverrunsPart (field : Field) (part : List Char) : Prop :=
  ∃ b, IsPart field part b ∧ ¬b.InWord

def FitsList (field : Field) (raw : List Char) : Prop :=
  ∃ bs, IsList field raw bs ∧ ∀ b ∈ bs, b.InWord

/-- The first part that does not fit overruns; those after it are not looked at. -/
def OverrunsList (field : Field) (raw : List Char) : Prop :=
  FailsAt (FitsPart field) (OverrunsPart field) (raw.splitOn ',')

/-- There is a text for each field, and the first one that does not fit overruns. -/
def OverrunsBody (body : List Char) : Prop :=
  (fieldTexts body).length = Field.all.length ∧
    FailsAt (fun p => FitsList p.1 p.2) (fun p => OverrunsList p.1 p.2) (Field.all.zip (fieldTexts body))

/-- Weekday 7 is Sunday. -/
def Field.fold (field : Field) (v : Nat) : Nat :=
  if field = .dayOfWeek ∧ v = 7 then 0 else v

def Fields.get (f : Fields) : Field → FieldSet
  | .minute => f.minute
  | .hour => f.hour
  | .dayOfMonth => f.dayOfMonth
  | .month => f.month
  | .dayOfWeek => f.dayOfWeek

/-! ## One reading after another -/

lemma bind_eq_ok_iff {ε α β : Type} {x : Except ε α} {f : α → Except ε β} {b : β} :
    x >>= f = .ok b ↔ ∃ a, x = .ok a ∧ f a = .ok b := by
  cases x with
  | error e => exact iff_of_false nofun nofun
  | ok a => exact ⟨fun h => ⟨a, rfl, h⟩, fun ⟨_, ha, h⟩ => Except.ok.inj ha ▸ h⟩

/-- Two readings are aborted at the first one, or at the second one if the first passes. -/
lemma bind_eq_overlong_iff {α β : Type} {x : Except CronError α} {next : α → Except CronError β}
    {Passes Fails P : Prop} (hpasses : (∃ a, x = .ok a) ↔ Passes) (hfails : x = .error .overlongPeriod ↔ Fails)
    (hnext : ∀ a, next a = .error .overlongPeriod ↔ P) :
    x >>= next = .error .overlongPeriod ↔ Fails ∨ Passes ∧ P := by
  rw [← hpasses, ← hfails]
  cases x with
  | error e => simp [bind, Except.bind]
  | ok a =>
    refine (hnext a).trans ?_
    simp

/-! ## Values -/

section
variable {field : Field} {raw range part step : List Char} {v lo hi n : Nat} {stepped wildcard : Bool}
  {c : Char}

lemma names_upper (field : Field) : ∀ name ∈ field.names, ∀ c ∈ name.toList, c.isUpper := by
  have hall : (field.names.all fun name => name.toList.all Char.isUpper) = true := by
    cases field <;> decide +kernel
  simpa only [List.all_eq_true] using hall

lemma names_nodup (field : Field) : field.names.Nodup := by
  cases field <;> decide +kernel

lemma isAlpha_of_name {name : String} (hname : name ∈ field.names) (hcase : raw.map Char.toUpper = name.toList)
    (hc : c ∈ raw) : c.isAlpha := by
  have hupper : c.toUpper.isUpper := by
    refine names_upper field name hname _ ?_
    rw [← hcase]
    exact List.mem_map_of_mem hc
  rwa [Char.isUpper_toUpper_eq_isAlpha] at hupper

lemma not_isAlpha_of_isDigit (h : c.isDigit) : ¬c.isAlpha := by
  simp [Char.isDigit, Char.isAlpha, Char.isUpper, Char.isLower, UInt32.le_iff_toNat_le] at h ⊢
  omega

/-- No numeral is a name. -/
lemma map_toUpper_notMem_names (h : IsNumeral raw n) : String.ofList (raw.map Char.toUpper) ∉ field.names := by
  intro hname
  have halpha : ∀ c ∈ raw, c.isAlpha := fun c => isAlpha_of_name hname (by simp)
  obtain h | ⟨digits, rfl, -⟩ := h
  · obtain ⟨d, ds, rfl⟩ := List.exists_cons_of_ne_nil h.nonempty
    exact not_isAlpha_of_isDigit (h.digits d (by simp)) (halpha d (by simp))
  · exact absurd (halpha '+' (by simp)) (by decide)

/-- A value is spelled with letters, digits and a plus sign. -/
lemma IsValue.notMem (h : IsValue field raw v) (hc : ¬c.isAlphanum) (hplus : c ≠ '+') : c ∉ raw := by
  simp only [Char.isAlphanum, Bool.or_eq_true, not_or] at hc
  intro hmem
  cases h with
  | name h hcase => exact hc.1 (isAlpha_of_name (List.mem_of_getElem? h) hcase hmem)
  | numeral h =>
    obtain h | ⟨digits, rfl, h⟩ := h
    · exact hc.2 (h.digits c hmem)
    · exact hc.2 (h.digits c ((List.mem_cons.1 hmem).resolve_left hplus))

lemma idxOf?_names_eq_some_iff {i : Nat} :
    field.names.idxOf? (String.ofList (raw.map Char.toUpper)) = some i ↔
      ∃ name, field.names[i]? = some name ∧ raw.map Char.toUpper = name.toList := by
  rw [List.idxOf?_eq_some_iff]
  constructor
  · rintro ⟨hi, hname, -⟩
    refine ⟨_, List.getElem?_eq_getElem hi, ?_⟩
    rw [hname, String.toList_ofList]
  · rintro ⟨name, hi, hcase⟩
    obtain ⟨hlt, hname⟩ := List.getElem?_eq_some_iff.1 hi
    have htext : String.ofList (raw.map Char.toUpper) = name := by
      rw [hcase, String.ofList_toList]
    rw [htext]
    refine ⟨hlt, hname, fun j hj hsame => ?_⟩
    have heq : j = i := (names_nodup field).getElem_inj_iff.1 (hsame.trans hname.symm)
    omega

/-- The texts that are read as a value. -/
theorem parseValue_eq_ok_iff : parseValue field raw = .ok v ↔ IsValue field raw v := by
  unfold parseValue
  cases hidx : field.names.idxOf? (String.ofList (raw.map Char.toUpper)) with
  | some i =>
    obtain ⟨name, hname, hcase⟩ := idxOf?_names_eq_some_iff.1 hidx
    dsimp only
    rw [Except.ok.injEq]
    constructor
    · rintro rfl
      exact .name hname hcase
    · intro h
      cases h with
      | @name j other hother hcase' =>
        have hj := idxOf?_names_eq_some_iff.2 ⟨other, hother, hcase'⟩
        rw [Option.some.inj (hidx.symm.trans hj)]
      | numeral h =>
        have hnone : field.names.idxOf? (String.ofList (raw.map Char.toUpper)) = none :=
          List.idxOf?_eq_none_iff.2 (map_toUpper_notMem_names h)
        simp [hnone] at hidx
  | none =>
    dsimp only
    constructor
    · intro h
      split at h
      · simp at h
      · rename_i m hread
        split_ifs at h with hout
        obtain rfl := Except.ok.inj h
        exact .numeral (readNat_eq_ok_iff.1 hread).1 (by omega) (by omega)
    · intro h
      cases h with
      | name h hcase =>
        have hsome := idxOf?_names_eq_some_iff.2 ⟨_, h, hcase⟩
        simp [hsome] at hidx
      | numeral h hlow hhigh =>
        have hread : readNat max32 raw = .ok v := by
          refine readNat_eq_ok_iff.2 ⟨h, (hhigh.trans (highest_le field)).trans ?_⟩
          decide
        rw [hread]
        exact if_neg (by omega)

/-! ## Parts -/

lemma parseStep_eq_ok_iff : parseStep field part step = .ok n ↔ IsNumeral step n ∧ 1 ≤ n ∧ n ≤ max32 := by
  unfold parseStep
  constructor
  · intro h
    split at h
    · rename_i m hread
      obtain rfl := Except.ok.inj h
      obtain ⟨hnumeral, hword⟩ := readNat_eq_ok_iff.1 hread
      exact ⟨hnumeral, Nat.le_add_left 1 m, hword⟩
    · simp at h
  · rintro ⟨hnumeral, hpos, hword⟩
    obtain ⟨m, rfl⟩ := Nat.exists_eq_add_of_le' hpos
    rw [readNat_eq_ok_iff.2 ⟨hnumeral, hword⟩]

lemma isWildcard_iff : isWildcard field range ↔ range = ['*'] ∨ range = ['?'] ∧ field.isDay := by
  simp [isWildcard]

lemma IsValue.not_wildcard (h : IsValue field raw v) : ¬isWildcard field raw := by
  rw [isWildcard_iff]
  rintro (rfl | ⟨rfl, -⟩)
  · exact h.notMem (c := '*') (by decide) (by decide) (by simp)
  · exact h.notMem (c := '?') (by decide) (by decide) (by simp)

lemma parseRange_eq_ok_iff :
    parseRange field part range stepped = .ok (lo, hi) ↔
      (IsValue field range lo ∧ hi = if stepped then field.highest else lo) ∨
        ∃ first last, range = first ++ '-' :: last ∧ IsValue field first lo ∧ IsValue field last hi ∧ lo ≤ hi := by
  unfold parseRange
  simp only [bind, Except.bind]
  cases hcut : splitFirst (· == '-') range with
  | none =>
    have hnone : '-' ∉ range := splitFirst_eq_none_iff.1 hcut
    dsimp only
    constructor
    · intro h
      split at h
      · simp at h
      · rename_i v hv
        obtain ⟨rfl, rfl⟩ := Prod.mk.inj (Except.ok.inj h)
        exact .inl ⟨parseValue_eq_ok_iff.1 hv, rfl⟩
    · rintro (⟨hv, rfl⟩ | ⟨first, last, rfl, -⟩)
      · rw [parseValue_eq_ok_iff.2 hv]
      · simp at hnone
  | some cut =>
    obtain ⟨first, last⟩ := cut
    obtain ⟨hrange, hfirst⟩ := splitFirst_eq_some_iff.1 hcut
    dsimp only
    constructor
    · intro h
      split at h
      · simp at h
      · rename_i v hv
        split at h
        · simp at h
        · rename_i w hw
          split_ifs at h with hlt
          obtain ⟨rfl, rfl⟩ := Prod.mk.inj (Except.ok.inj h)
          exact .inr ⟨first, last, hrange, parseValue_eq_ok_iff.1 hv, parseValue_eq_ok_iff.1 hw, not_lt.1 hlt⟩
    · rintro (⟨hv, -⟩ | ⟨first', last', hrange', hv, hw, hle⟩)
      · exact absurd (by simp [hrange]) (hv.notMem (c := '-') (by decide) (by decide))
      · have hfirst' : '-' ∉ first' := hv.notMem (by decide) (by decide)
        have hcut' := splitFirst_eq_some_iff.2 ⟨hrange', hfirst'⟩
        obtain ⟨rfl, rfl⟩ := Prod.mk.inj (Option.some.inj (hcut.symm.trans hcut'))
        rw [parseValue_eq_ok_iff.2 hv]
        dsimp only
        rw [parseValue_eq_ok_iff.2 hw]
        exact if_neg hle.not_gt

lemma IsRange.slash_notMem (h : IsRange field stepped range lo hi wildcard) : '/' ∉ range := by
  cases h with
  | star => decide
  | any => decide
  | single h => exact h.notMem (by decide) (by decide)
  | span hlo hhi =>
    have hfirst := hlo.notMem (c := '/') (by decide) (by decide)
    have hlast := hhi.notMem (c := '/') (by decide) (by decide)
    simp [hfirst, hlast]

/-- The bounds of a range with its stride; `star` tells whether a wildcard with that stride still is a plain one. -/
lemma range_eq_ok_iff {stride : Nat} (star : Bool) {b : Bounds} :
    (if isWildcard field range then Except.ok ⟨field.lowest, field.wildcardEnd, stride, star⟩
        else parseRange field part range stepped >>= fun bounds => .ok ⟨bounds.1, bounds.2, stride, false⟩) = .ok b ↔
      ∃ lo hi wildcard, IsRange field stepped range lo hi wildcard ∧ b = ⟨lo, hi, stride, wildcard && star⟩ := by
  constructor
  · intro h
    split_ifs at h with hwild
    · obtain rfl := Except.ok.inj h
      refine ⟨_, _, true, ?_, by rw [Bool.true_and]⟩
      obtain rfl | ⟨rfl, hday⟩ := isWildcard_iff.1 hwild
      · exact .star
      · exact .any hday
    · cases hrange : parseRange field part range stepped with
      | error e => simp [hrange, bind, Except.bind] at h
      | ok bounds =>
        rw [hrange] at h
        obtain rfl := Except.ok.inj h
        refine ⟨_, _, false, ?_, by rw [Bool.false_and]⟩
        obtain ⟨hv, hhi⟩ | ⟨first, last, rfl, hv, hw, hle⟩ := parseRange_eq_ok_iff.1 hrange
        · rw [hhi]
          exact .single hv
        · exact .span hv hw hle
  · rintro ⟨lo, hi, wildcard, h, rfl⟩
    cases h with
    | star => exact if_pos (isWildcard_iff.2 (.inl rfl))
    | any hday => exact if_pos (isWildcard_iff.2 (.inr ⟨rfl, hday⟩))
    | single hv =>
      rw [if_neg hv.not_wildcard, parseRange_eq_ok_iff.2 (.inl ⟨hv, rfl⟩)]
      rfl
    | @span first last _ _ hv hw hle =>
      have hwild : ¬isWildcard field (first ++ '-' :: last) := by
        rw [isWildcard_iff]
        rintro (h | ⟨h, -⟩)
        · have hmem : '-' ∈ ['*'] := h ▸ by simp
          exact absurd hmem (by decide)
        · have hmem : '-' ∈ ['?'] := h ▸ by simp
          exact absurd hmem (by decide)
      rw [if_neg hwild, parseRange_eq_ok_iff.2 (.inr ⟨first, last, rfl, hv, hw, hle⟩)]
      rfl

/-- The texts that are read as a part. -/
theorem partBounds_eq_ok_iff {b : Bounds} : partBounds field part = .ok b ↔ IsPart field part b := by
  unfold partBounds
  cases hcut : splitFirst (· == '/') part with
  | none =>
    have hnone : '/' ∉ part := splitFirst_eq_none_iff.1 hcut
    refine (range_eq_ok_iff true).trans ?_
    constructor
    · rintro ⟨lo, hi, wildcard, h, rfl⟩
      rw [Bool.and_true]
      exact .plain h
    · intro h
      cases h with
      | plain h => exact ⟨_, _, _, h, by rw [Bool.and_true]⟩
      | stepped => simp at hnone
  | some cut =>
    obtain ⟨range, step⟩ := cut
    obtain ⟨hpart, hrange⟩ := splitFirst_eq_some_iff.1 hcut
    dsimp only
    constructor
    · intro h
      cases hstep : parseStep field part step with
      | error e => simp [hstep, bind, Except.bind] at h
      | ok n =>
        rw [hstep] at h
        obtain ⟨lo, hi, wildcard, hbounds, rfl⟩ := (range_eq_ok_iff (n == 1)).1 h
        obtain ⟨hnumeral, hpos, hword⟩ := parseStep_eq_ok_iff.1 hstep
        rw [hpart]
        exact .stepped hbounds hnumeral hpos hword
    · intro h
      cases h with
      | plain h =>
        have hslash := h.slash_notMem
        simp [hpart] at hslash
      | @stepped range' step' lo hi n wildcard h hnumeral hpos hword =>
        have hcut' : splitFirst (· == '/') (range' ++ '/' :: step') = some (range', step') :=
          splitFirst_eq_some_iff.2 ⟨rfl, h.slash_notMem⟩
        obtain ⟨rfl, rfl⟩ := Prod.mk.inj (Option.some.inj (hcut'.symm.trans hcut))
        rw [parseStep_eq_ok_iff.2 ⟨hnumeral, hpos, hword⟩]
        exact (range_eq_ok_iff (n == 1)).2 ⟨lo, hi, wildcard, h, rfl⟩

end

/-! ## Rows -/

section
variable {α β : Type} {Passes Fails : α → Prop} {x : α} {y : β} {xs : List α} {ys : List β} {R : α → β → Prop}

lemma not_failsAt_nil : ¬FailsAt Passes Fails [] :=
  nofun

lemma failsAt_cons_iff : FailsAt Passes Fails (x :: xs) ↔ Fails x ∨ Passes x ∧ FailsAt Passes Fails xs := by
  constructor
  · rintro (h | ⟨hx, h⟩)
    · exact .inl h
    · exact .inr ⟨hx, h⟩
  · rintro (h | ⟨hx, h⟩)
    · exact .here h
    · exact .later hx h

/-- Where each one passes or fails, the first failure counts. -/
lemma failsAt_of_mem (hall : ∀ z ∈ xs, Passes z ∨ Fails z) (hx : x ∈ xs) (hfails : Fails x) :
    FailsAt Passes Fails xs := by
  induction xs with
  | nil => simp at hx
  | cons z xs ih =>
    obtain hz | hz := hall z List.mem_cons_self
    · obtain rfl | hx := List.mem_cons.1 hx
      · exact .here hfails
      · exact .later hz (ih (fun w hw => hall w (List.mem_cons_of_mem z hw)) hx)
    · exact .here hz

lemma exists_of_mem_left (h : List.Forall₂ R xs ys) (hx : x ∈ xs) : ∃ y ∈ ys, R x y := by
  induction h with
  | nil => simp at hx
  | cons hxy _ ih =>
    obtain rfl | hx := List.mem_cons.1 hx
    · exact ⟨_, List.mem_cons_self, hxy⟩
    · obtain ⟨y, hy, hr⟩ := ih hx
      exact ⟨y, List.mem_cons_of_mem _ hy, hr⟩

lemma exists_of_mem_right (h : List.Forall₂ R xs ys) (hy : y ∈ ys) : ∃ x ∈ xs, R x y :=
  exists_of_mem_left h.flip hy

end

/-! ## The values of a part -/

section
variable {field : Field} {part raw body : List Char} {b : Bounds} {bs : List Bounds} {s : FieldSet} {v : Nat}

lemma IsPart.bounds (h : IsPart field part b) : b.lo ≤ b.hi ∧ b.hi ≤ field.highest ∧ 1 ≤ b.stride :=
  partBounds_spec (partBounds_eq_ok_iff.2 h)

lemma IsPart.mem_values (h : IsPart field part b) : v ∈ b.values.values ↔ b.Steps v :=
  mem_values_of_partBounds (partBounds_eq_ok_iff.2 h)

lemma IsPart.fits_or_overruns (h : IsPart field part b) : FitsPart field part ∨ OverrunsPart field part := by
  by_cases hin : b.InWord
  · exact .inl ⟨b, h, hin⟩
  · exact .inr ⟨b, h, hin⟩

/-- A part is read as it should be, or reading is aborted there. -/
lemma IsPart.parsePart_eq (h : IsPart field part b) :
    parsePart field part = if b.InWord then .ok b.values else .error .overlongPeriod := by
  have hb := partBounds_eq_ok_iff.2 h
  rw [Cron.parsePart_eq, hb]
  exact read_of_partBounds hb

lemma exists_part_of_parsePart {x : Except CronError FieldSet} (h : parsePart field part = x)
    (hx : ∀ e, x = .error e → e = .overlongPeriod) : ∃ b, IsPart field part b := by
  cases hb : partBounds field part with
  | ok b => exact ⟨b, partBounds_eq_ok_iff.1 hb⟩
  | error e =>
    rw [Cron.parsePart_eq, hb] at h
    obtain rfl := hx e h.symm
    exact absurd hb (partBounds_holds field part)

lemma parsePart_eq_ok_iff :
    parsePart field part = .ok s ↔ ∃ b, IsPart field part b ∧ b.InWord ∧ s = b.values := by
  constructor
  · intro h
    obtain ⟨b, hb⟩ := exists_part_of_parsePart h nofun
    rw [hb.parsePart_eq] at h
    split_ifs at h with hin
    exact ⟨b, hb, hin, (Except.ok.inj h).symm⟩
  · rintro ⟨b, hb, hin, rfl⟩
    rw [hb.parsePart_eq, if_pos hin]

lemma exists_parsePart_iff : (∃ s, parsePart field part = .ok s) ↔ FitsPart field part := by
  simp only [parsePart_eq_ok_iff, FitsPart]
  exact ⟨fun ⟨_, b, hb, hin, _⟩ => ⟨b, hb, hin⟩, fun ⟨b, hb, hin⟩ => ⟨_, b, hb, hin, rfl⟩⟩

lemma parsePart_eq_overlong_iff : parsePart field part = .error .overlongPeriod ↔ OverrunsPart field part := by
  constructor
  · intro h
    obtain ⟨b, hb⟩ := exists_part_of_parsePart h fun e he => (Except.error.inj he).symm
    rw [hb.parsePart_eq] at h
    split_ifs at h with hin
    exact ⟨b, hb, hin⟩
  · rintro ⟨b, hb, hout⟩
    rw [hb.parsePart_eq, if_neg hout]

/-! ## Lists and bodies -/

/-- The values of all parts together. -/
def Bounds.union (bs : List Bounds) : FieldSet :=
  bs.foldl (fun set b => set.union b.values) ∅

lemma mem_foldl_values (bs : List Bounds) (set : FieldSet) :
    v ∈ (bs.foldl (fun set b => set.union b.values) set).values ↔
      v ∈ set.values ∨ ∃ b ∈ bs, v ∈ b.values.values := by
  induction bs generalizing set with
  | nil => simp
  | cons b bs ih =>
    rw [List.foldl_cons, ih, FieldSet.union, List.mem_append, or_assoc]
    simp only [List.mem_cons, exists_eq_or_imp]

lemma foldl_star (bs : List Bounds) (set : FieldSet) :
    (bs.foldl (fun set b => set.union b.values) set).star = true ↔ set.star = true ∨ ∃ b ∈ bs, b.star = true := by
  induction bs generalizing set with
  | nil => simp
  | cons b bs ih =>
    rw [List.foldl_cons, ih, FieldSet.union, Bool.or_eq_true, or_assoc]
    simp only [List.mem_cons, exists_eq_or_imp]
    rfl

lemma IsList.mem_union (h : IsList field raw bs) : v ∈ (Bounds.union bs).values ↔ ∃ b ∈ bs, b.Steps v := by
  have hparts : ∀ b ∈ bs, (v ∈ b.values.values ↔ b.Steps v) := by
    intro b hb
    obtain ⟨part, -, hpart⟩ := exists_of_mem_right h hb
    exact hpart.mem_values
  have hnone : v ∉ (∅ : FieldSet).values := List.not_mem_nil
  rw [Bounds.union, mem_foldl_values, or_iff_right hnone]
  exact exists_congr fun b => and_congr_right (hparts b)

lemma IsList.overruns (h : IsList field raw bs) (hb : b ∈ bs) (hout : ¬b.InWord) : OverrunsList field raw := by
  obtain ⟨part, hmem, hpart⟩ := exists_of_mem_right h hb
  refine failsAt_of_mem (fun other hother => ?_) hmem ⟨b, hpart, hout⟩
  obtain ⟨c, -, hc⟩ := exists_of_mem_left h hother
  exact hc.fits_or_overruns

lemma IsList.fits_or_overruns (h : IsList field raw bs) : FitsList field raw ∨ OverrunsList field raw := by
  by_cases hin : ∀ b ∈ bs, b.InWord
  · exact .inl ⟨bs, h, hin⟩
  · push Not at hin
    obtain ⟨b, hb, hout⟩ := hin
    exact .inr (h.overruns hb hout)

lemma foldlM_parsePart_eq_ok_iff {parts : List (List Char)} {set : FieldSet} :
    parts.foldlM (fun set part => do .ok (set.union (← parsePart field part))) set = .ok s ↔
      ∃ bs, List.Forall₂ (IsPart field) parts bs ∧ (∀ b ∈ bs, b.InWord) ∧
        s = bs.foldl (fun set b => set.union b.values) set := by
  induction parts generalizing set with
  | nil =>
    rw [List.foldlM_nil]
    constructor
    · intro h
      exact ⟨[], .nil, by simp, (Except.ok.inj h).symm⟩
    · rintro ⟨bs, hbs, -, rfl⟩
      obtain rfl := List.forall₂_nil_left_iff.1 hbs
      rfl
  | cons part parts ih =>
    rw [List.foldlM_cons]
    constructor
    · intro h
      cases hpart : parsePart field part with
      | error e => simp [hpart, bind, Except.bind] at h
      | ok new =>
        rw [hpart] at h
        obtain ⟨b, hb, hin, rfl⟩ := parsePart_eq_ok_iff.1 hpart
        obtain ⟨bs, hbs, hall, rfl⟩ := ih.1 h
        exact ⟨b :: bs, .cons hb hbs, List.forall_mem_cons.2 ⟨hin, hall⟩, rfl⟩
    · rintro ⟨bs, hbs, hall, rfl⟩
      obtain ⟨b, bs, hb, hrest, rfl⟩ := List.forall₂_cons_left_iff.1 hbs
      obtain ⟨hin, hall⟩ := List.forall_mem_cons.1 hall
      rw [parsePart_eq_ok_iff.2 ⟨b, hb, hin, rfl⟩]
      exact ih.2 ⟨bs, hrest, hall, rfl⟩

lemma foldlM_parsePart_eq_overlong_iff {parts : List (List Char)} {set : FieldSet} :
    parts.foldlM (fun set part => do .ok (set.union (← parsePart field part))) set = .error .overlongPeriod ↔
      FailsAt (FitsPart field) (OverrunsPart field) parts := by
  induction parts generalizing set with
  | nil => exact iff_of_false nofun not_failsAt_nil
  | cons part parts ih =>
    rw [List.foldlM_cons, bind_assoc, failsAt_cons_iff]
    exact bind_eq_overlong_iff exists_parsePart_iff parsePart_eq_overlong_iff fun new => ih

/-- The texts that are read as a field, before weekday 7 is folded. -/
theorem parseField_eq_ok_iff : parseField field raw = .ok s ↔
    ∃ bs, IsList field raw bs ∧ (∀ b ∈ bs, b.InWord) ∧ s = Bounds.union bs := by
  unfold parseField
  rw [pieces_eq]
  exact foldlM_parsePart_eq_ok_iff

/-- The texts of a field that abort reading. -/
theorem parseField_eq_overlong_iff :
    parseField field raw = .error .overlongPeriod ↔ OverrunsList field raw := by
  unfold parseField
  rw [pieces_eq]
  exact foldlM_parsePart_eq_overlong_iff

lemma exists_parseField_iff : (∃ s, parseField field raw = .ok s) ↔ FitsList field raw := by
  simp only [parseField_eq_ok_iff, FitsList]
  exact ⟨fun ⟨_, bs, hbs, hin, _⟩ => ⟨bs, hbs, hin⟩, fun ⟨bs, hbs, hin⟩ => ⟨_, bs, hbs, hin, rfl⟩⟩

/-- Reading a field and going on is aborted at the field, or after it. -/
lemma parseField_bind_eq_overlong_iff {α : Type} {next : FieldSet → Except CronError α} {P : Prop}
    (hnext : ∀ set, next set = .error .overlongPeriod ↔ P) :
    parseField field raw >>= next = .error .overlongPeriod ↔ OverrunsList field raw ∨ FitsList field raw ∧ P :=
  bind_eq_overlong_iff exists_parseField_iff parseField_eq_overlong_iff hnext

end

/-- The fields that a body stands for. -/
def Bounds.fields (bounds : Field → List Bounds) : Fields :=
  ⟨union (bounds .minute), union (bounds .hour), union (bounds .dayOfMonth), union (bounds .month),
    foldSunday (union (bounds .dayOfWeek))⟩

lemma parseFields_eq_ok_iff {body : List Char} {fields : Fields} :
    parseFields body = .ok fields ↔ ∃ bounds, IsBody body bounds ∧ (∀ field, ∀ b ∈ bounds field, b.InWord) ∧
      fields = Bounds.fields bounds := by
  unfold parseFields IsBody
  rw [words_eq]
  constructor
  · intro h
    split at h
    · rename_i minute hour dayOfMonth month dayOfWeek hwords
      simp only [bind_eq_ok_iff, parseField_eq_ok_iff] at h
      obtain ⟨_, ⟨minutes, hminute, hin₁, rfl⟩, _, ⟨hours, hhour, hin₂, rfl⟩, _, ⟨days, hday, hin₃, rfl⟩,
        _, ⟨months, hmonth, hin₄, rfl⟩, _, ⟨weekdays, hweekday, hin₅, rfl⟩, heq⟩ := h
      let bounds : Field → List Bounds
        | .minute => minutes
        | .hour => hours
        | .dayOfMonth => days
        | .month => months
        | .dayOfWeek => weekdays
      refine ⟨bounds, ?_, ?_, (Except.ok.inj heq).symm⟩
      · rw [fieldTexts, hwords]
        exact .cons hminute (.cons hhour (.cons hday (.cons hmonth (.cons hweekday .nil))))
      · intro field
        cases field with
        | minute => exact hin₁
        | hour => exact hin₂
        | dayOfMonth => exact hin₃
        | month => exact hin₄
        | dayOfWeek => exact hin₅
    · simp at h
  · rintro ⟨bounds, hbody, hin, rfl⟩
    rw [← fieldTexts]
    generalize fieldTexts body = texts at hbody ⊢
    obtain _ | ⟨hminute, _ | ⟨hhour, _ | ⟨hday, _ | ⟨hmonth, _ | ⟨hweekday, ⟨⟩⟩⟩⟩⟩⟩ := hbody
    simp only [bind_eq_ok_iff, parseField_eq_ok_iff]
    exact ⟨_, ⟨_, hminute, hin _, rfl⟩, _, ⟨_, hhour, hin _, rfl⟩, _, ⟨_, hday, hin _, rfl⟩, _,
      ⟨_, hmonth, hin _, rfl⟩, _, ⟨_, hweekday, hin _, rfl⟩, rfl⟩

/-- The bodies that abort reading. -/
theorem parseFields_eq_overlong_iff {body : List Char} :
    parseFields body = .error .overlongPeriod ↔ OverrunsBody body := by
  unfold parseFields OverrunsBody
  rw [words_eq, ← fieldTexts]
  split
  · rename_i minute hour dayOfMonth month dayOfWeek htexts
    have hrow : FailsAt (fun p => FitsList p.1 p.2) (fun p => OverrunsList p.1 p.2)
        (Field.all.zip [minute, hour, dayOfMonth, month, dayOfWeek]) ↔
        OverrunsList .minute minute ∨ FitsList .minute minute ∧
          (OverrunsList .hour hour ∨ FitsList .hour hour ∧
            (OverrunsList .dayOfMonth dayOfMonth ∨ FitsList .dayOfMonth dayOfMonth ∧
              (OverrunsList .month month ∨ FitsList .month month ∧
                (OverrunsList .dayOfWeek dayOfWeek ∨ FitsList .dayOfWeek dayOfWeek ∧ False)))) := by
      simp only [Field.all, List.zip_cons_cons, List.zip_nil_left, failsAt_cons_iff, not_failsAt_nil]
    rw [htexts, hrow]
    refine Iff.trans ?_ (and_iff_right rfl).symm
    exact parseField_bind_eq_overlong_iff fun _ => parseField_bind_eq_overlong_iff fun _ =>
      parseField_bind_eq_overlong_iff fun _ => parseField_bind_eq_overlong_iff fun _ =>
      parseField_bind_eq_overlong_iff fun _ => iff_of_false nofun id
  · rename_i hother
    refine iff_of_false nofun ?_
    rintro ⟨hcount, -⟩
    generalize fieldTexts body = texts at hcount hother
    obtain _ | ⟨minute, _ | ⟨hour, _ | ⟨dayOfMonth, _ | ⟨month, _ | ⟨dayOfWeek, _ | ⟨more, texts⟩⟩⟩⟩⟩⟩ := texts
    case cons.cons.cons.cons.cons.nil => exact hother minute hour dayOfMonth month dayOfWeek rfl
    all_goals simp [Field.all] at hcount

section
variable {field : Field} {body : List Char} {bounds : Field → List Bounds} {v w : Nat}

lemma IsBody.isList (h : IsBody body bounds) (field : Field) :
    ∃ raw, (field, raw) ∈ Field.all.zip (fieldTexts body) ∧ IsList field raw (bounds field) := by
  unfold IsBody at h
  generalize fieldTexts body = texts at h ⊢
  obtain _ | ⟨hminute, _ | ⟨hhour, _ | ⟨hday, _ | ⟨hmonth, _ | ⟨hweekday, ⟨⟩⟩⟩⟩⟩⟩ := h
  cases field with
  | minute => exact ⟨_, by simp [Field.all], hminute⟩
  | hour => exact ⟨_, by simp [Field.all], hhour⟩
  | dayOfMonth => exact ⟨_, by simp [Field.all], hday⟩
  | month => exact ⟨_, by simp [Field.all], hmonth⟩
  | dayOfWeek => exact ⟨_, by simp [Field.all], hweekday⟩

lemma IsBody.exists_part {b : Bounds} (h : IsBody body bounds) (hb : b ∈ bounds field) :
    ∃ part, IsPart field part b := by
  obtain ⟨raw, -, hlist⟩ := h.isList field
  obtain ⟨part, -, hpart⟩ := exists_of_mem_right hlist hb
  exact ⟨part, hpart⟩

/-- A body of the grammar aborts reading exactly if one of its strides leaves the word. -/
lemma IsBody.overruns_iff (h : IsBody body bounds) :
    OverrunsBody body ↔ ∃ field, ∃ b ∈ bounds field, ¬b.InWord := by
  constructor
  · intro hover
    by_contra hnone
    push Not at hnone
    have hread := parseFields_eq_ok_iff.2 ⟨bounds, h, hnone, rfl⟩
    have habort := parseFields_eq_overlong_iff.2 hover
    simp [hread] at habort
  · rintro ⟨field, b, hb, hout⟩
    obtain ⟨raw, hmem, hlist⟩ := h.isList field
    refine ⟨h.length_eq.symm, failsAt_of_mem (fun p hp => ?_) hmem (hlist.overruns hb hout)⟩
    exact (List.forall₂_zip h hp).fits_or_overruns

lemma IsBody.le_highest (h : IsBody body bounds) {b : Bounds} (hb : b ∈ bounds field) (hv : b.Steps v) :
    v ≤ field.highest := by
  obtain ⟨part, hpart⟩ := h.exists_part hb
  exact hv.1.trans hpart.bounds.2.1

lemma fold_dayOfWeek (h : w ≤ 7) : Field.dayOfWeek.fold w = w % 7 := by
  unfold Field.fold
  split_ifs with hseven
  · rw [hseven.2]
  · have hne : w ≠ 7 := fun heq => hseven ⟨rfl, heq⟩
    omega

/-- Folding keeps all values but the second spelling of Sunday. -/
lemma contains_get (hle : ∀ w ∈ (Bounds.union (bounds field)).values, w ≤ field.highest) :
    ((Bounds.fields bounds).get field).contains v = true ↔
      ∃ w ∈ (Bounds.union (bounds field)).values, v = field.fold w := by
  unfold FieldSet.contains
  rw [List.contains_iff_mem]
  cases field with
  | dayOfWeek =>
    change v ∈ (Bounds.union (bounds .dayOfWeek)).values.map (· % 7) ↔ _
    rw [List.mem_map]
    refine exists_congr fun w => and_congr_right fun hw => ?_
    rw [fold_dayOfWeek (hle w hw), eq_comm]
  | minute | hour | dayOfMonth | month => exact ⟨fun h => ⟨v, h, rfl⟩, fun ⟨_, hw, h⟩ => h ▸ hw⟩

lemma star_get (bounds : Field → List Bounds) (field : Field) :
    ((Bounds.fields bounds).get field).star = true ↔ ∃ b ∈ bounds field, b.star = true := by
  have hstar : ((Bounds.fields bounds).get field).star = (Bounds.union (bounds field)).star := by
    cases field <;> rfl
  have hnone : ¬(∅ : FieldSet).star = true := nofun
  rw [hstar, Bounds.union, foldl_star, or_iff_right hnone]

/-- A field has the values in whole strides between the bounds of its parts. -/
lemma IsBody.contains_iff (h : IsBody body bounds) :
    ((Bounds.fields bounds).get field).contains v = true ↔
      ∃ b ∈ bounds field, ∃ w, b.Steps w ∧ v = field.fold w := by
  obtain ⟨raw, -, hlist⟩ := h.isList field
  have hle : ∀ w ∈ (Bounds.union (bounds field)).values, w ≤ field.highest := by
    intro w hw
    obtain ⟨b, hb, hw⟩ := hlist.mem_union.1 hw
    exact h.le_highest hb hw
  rw [contains_get hle]
  constructor
  · rintro ⟨w, hw, rfl⟩
    obtain ⟨b, hb, hw⟩ := hlist.mem_union.1 hw
    exact ⟨b, hb, w, hw, rfl⟩
  · rintro ⟨b, hb, w, hw, rfl⟩
    exact ⟨w, hlist.mem_union.2 ⟨b, hb, hw⟩, rfl⟩

end

/-- A body is read exactly if it spells five lists and the first stride of each part stays within a word. Then a field is
a plain wildcard if one of its parts is, and it has exactly the values in whole strides between the bounds of its
parts. Reading a body that spells five lists is aborted exactly if one of the strides leaves the word, and it does not
fail in any other way. -/
theorem lists_mean_values (body : List Char) :
    ((∃ fields, parseFields body = .ok fields) ↔
      ∃ bounds, IsBody body bounds ∧ ∀ field, ∀ b ∈ bounds field, b.InWord) ∧
    ∀ bounds, IsBody body bounds →
      (parseFields body = .error .overlongPeriod ↔ ∃ field, ∃ b ∈ bounds field, ¬b.InWord) ∧
      (∀ e, parseFields body = .error e → e = .overlongPeriod) ∧
      ∀ fields, parseFields body = .ok fields → ∀ field : Field,
        ((fields.get field).star = true ↔ ∃ b ∈ bounds field, b.star = true) ∧
        ∀ v, (fields.get field).contains v = true ↔ ∃ b ∈ bounds field, ∃ w, b.Steps w ∧ v = field.fold w := by
  constructor
  · constructor
    · rintro ⟨fields, h⟩
      obtain ⟨bounds, hbody, hin, -⟩ := parseFields_eq_ok_iff.1 h
      exact ⟨bounds, hbody, hin⟩
    · rintro ⟨bounds, hbody, hin⟩
      exact ⟨_, parseFields_eq_ok_iff.2 ⟨bounds, hbody, hin, rfl⟩⟩
  · intro bounds hbody
    have habort : parseFields body = .error .overlongPeriod ↔ ∃ field, ∃ b ∈ bounds field, ¬b.InWord :=
      parseFields_eq_overlong_iff.trans hbody.overruns_iff
    have hread : parseFields body ≠ .error .overlongPeriod → parseFields body = .ok (Bounds.fields bounds) := by
      intro hne
      rw [Ne, habort] at hne
      push Not at hne
      exact parseFields_eq_ok_iff.2 ⟨bounds, hbody, hne, rfl⟩
    refine ⟨habort, fun e he => ?_, fun fields hfields field => ?_⟩
    · by_contra hne
      have hok := hread fun hover => hne (Except.error.inj (he.symm.trans hover))
      simp [he] at hok
    · have hok := hread fun hover => by simp [hfields] at hover
      obtain rfl : fields = Bounds.fields bounds := Except.ok.inj (hfields.symm.trans hok)
      exact ⟨star_get bounds field, fun v => hbody.contains_iff⟩

lemma isList_singleton {field : Field} {raw : List Char} {b : Bounds} (hcomma : ',' ∉ raw)
    (h : partBounds field raw = .ok b) : IsList field raw [b] := by
  rw [IsList, List.splitOn_eq_singleton hcomma]
  exact .cons (partBounds_eq_ok_iff.1 h) .nil

/-- Every quarter of an hour from five past, in the hours from six to eleven on Sundays. -/
def sundayBounds : Field → List Bounds
  | .minute => [⟨5, 59, 15, false⟩]
  | .hour => [⟨6, 11, 1, false⟩]
  | .dayOfMonth => [⟨1, 31, 1, true⟩]
  | .month => [⟨1, 12, 1, true⟩]
  | .dayOfWeek => [⟨7, 7, 1, false⟩]

theorem lists_mean_values_sunday :
    ∃ fields, parseFields "5/15 6-11 ? * 7".toList = .ok fields ∧
      IsBody "5/15 6-11 ? * 7".toList sundayBounds ∧
      (∀ v, fields.minute.contains v = true ↔ v ≤ 59 ∧ ∃ k, v = 5 + k * 15) ∧
      (∀ v, fields.dayOfWeek.contains v = true ↔ v = 0) ∧ fields.dayOfMonth.star = true := by
  have htexts : fieldTexts "5/15 6-11 ? * 7".toList =
      ["5/15".toList, "6-11".toList, "?".toList, "*".toList, "7".toList] := by
    decide +kernel
  have hbody : IsBody "5/15 6-11 ? * 7".toList sundayBounds := by
    unfold IsBody
    rw [htexts]
    exact .cons (isList_singleton (by decide) rfl) (.cons (isList_singleton (by decide) rfl)
      (.cons (isList_singleton (by decide) rfl) (.cons (isList_singleton (by decide) rfl)
        (.cons (isList_singleton (by decide) rfl) .nil))))
  have hin : ∀ field, ∀ b ∈ sundayBounds field, b.InWord := by
    intro field
    cases field <;> decide
  obtain ⟨fields, hread⟩ := (lists_mean_values _).1.2 ⟨_, hbody, hin⟩
  obtain ⟨-, -, hmeans⟩ := (lists_mean_values _).2 sundayBounds hbody
  refine ⟨fields, hread, hbody, fun v => ?_, fun v => ?_, ?_⟩
  · refine ((hmeans fields hread .minute).2 v).trans ?_
    simp [sundayBounds, Bounds.Steps, Field.fold]
  · refine ((hmeans fields hread .dayOfWeek).2 v).trans ?_
    simp only [sundayBounds, List.mem_singleton, exists_eq_left, Bounds.Steps, Field.fold]
    constructor
    · rintro ⟨w, ⟨hle, k, rfl⟩, rfl⟩
      exact if_pos ⟨trivial, by omega⟩
    · rintro rfl
      exact ⟨7, ⟨le_rfl, 0, rfl⟩, rfl⟩
  · exact (hmeans fields hread .dayOfMonth).1.2 ⟨_, List.mem_singleton_self _, rfl⟩

/-- The fifth minute alone, since the longest step leads far past the end of the hour. -/
def fifthMinute : Field → List Bounds
  | .minute => [⟨5, 59, 4294967295, false⟩]
  | field => [⟨field.lowest, field.wildcardEnd, 1, true⟩]

/-- Reading a text for the fifth minute is aborted. -/
theorem long_stride_aborts :
    IsBody "5/4294967295 * * * *".toList fifthMinute ∧
      (∀ v, (∃ b ∈ fifthMinute .minute, b.Steps v) ↔ v = 5) ∧
      parseFields "5/4294967295 * * * *".toList = .error .overlongPeriod := by
  have htexts : fieldTexts "5/4294967295 * * * *".toList =
      ["5/4294967295".toList, "*".toList, "*".toList, "*".toList, "*".toList] := by
    decide +kernel
  have hbody : IsBody "5/4294967295 * * * *".toList fifthMinute := by
    unfold IsBody
    rw [htexts]
    exact .cons (isList_singleton (by decide) rfl) (.cons (isList_singleton (by decide) rfl)
      (.cons (isList_singleton (by decide) rfl) (.cons (isList_singleton (by decide) rfl)
        (.cons (isList_singleton (by decide) rfl) .nil))))
  refine ⟨hbody, fun v => ?_, by decide +kernel⟩
  simp only [fifthMinute, List.mem_singleton, exists_eq_left, Bounds.Steps]
  constructor
  · rintro ⟨hle, k, rfl⟩
    omega
  · rintro rfl
    exact ⟨by decide, 0, rfl⟩

end Timetable.Cron
