import Timetable.Proofs.Identity.Name
import Timetable.Proofs.Text.Split

/-!
# The texts of keys

A text is a key if it is two names with a slash between them. The bytes of a text tell whether it is a name: in UTF-8
no byte of a longer character is one of ASCII, so a name has no characters but its bytes. Neither name of a key holds
a slash, so that there is one way to read the key, and it is written as it was read.
-/

namespace Timetable

namespace Text
variable {c : Char} {s : String}

/-- The UTF-8 bytes of a text. -/
def bytes (s : String) : List UInt8 :=
  s.toUTF8.data.toList

lemma bytes_eq (s : String) : bytes s = s.toList.flatMap String.utf8EncodeChar := by
  rw [bytes, String.toUTF8, ← String.utf8Encode_toList, List.utf8Encode, List.data_toByteArray]

/-- No byte of a longer character is below 128. -/
lemma toNat_le_of_mem_encode {b : UInt8} (h : b ∈ String.utf8EncodeChar c) (hb : b.toNat < 128) :
    c.toNat ≤ 127 := by
  unfold String.utf8EncodeChar at h
  dsimp only at h
  split_ifs at h with hone
  · exact hone
  all_goals
    simp only [List.mem_cons, List.not_mem_nil, or_false] at h
    rcases h with rfl | rfl | rfl | rfl <;> simp only [UInt8.toNat_ofNat'] at hb <;> omega

lemma encode_of_le (h : c.toNat ≤ 127) : String.utf8EncodeChar c = [UInt8.ofNat c.toNat] := by
  unfold String.utf8EncodeChar
  exact if_pos h

lemma bytes_of_ascii (h : ∀ c ∈ s.toList, c.toNat ≤ 127) :
    bytes s = s.toList.map fun c => UInt8.ofNat c.toNat := by
  rw [bytes_eq, List.map_eq_flatMap]
  exact List.flatMap_congr fun c hc => encode_of_le (h c hc)

end Text

namespace Name
variable {c : Char} {b : UInt8} {name : String}

/-- A lowercase letter or a digit of ASCII. -/
def IsAlnumByte (b : UInt8) : Prop :=
  (0x61 ≤ b ∧ b ≤ 0x7A) ∨ (0x30 ≤ b ∧ b ≤ 0x39)

/-- A letter or digit, a dash or a dot. -/
def IsNameByte (b : UInt8) : Prop :=
  IsAlnumByte b ∨ b = 0x2D ∨ b = 0x2E

/-- The rule of names, byte by byte. -/
structure WellFormed (name : String) : Prop where
  length : 1 ≤ (Text.bytes name).length ∧ (Text.bytes name).length ≤ 253
  allowed : ∀ b ∈ Text.bytes name, IsNameByte b
  start : ∀ b, (Text.bytes name).head? = some b → IsAlnumByte b
  final : ∀ b, (Text.bytes name).getLast? = some b → IsAlnumByte b

/-! ## Characters and bytes -/

lemma isAlnum_iff : isAlnum c = true ↔
    (0x61 ≤ c.toNat ∧ c.toNat ≤ 0x7A) ∨ (0x30 ≤ c.toNat ∧ c.toNat ≤ 0x39) := by
  unfold isAlnum Char.isLower Char.isDigit
  simp [UInt32.le_iff_toNat_le]

lemma isAllowed_iff : isAllowed c = true ↔ isAlnum c = true ∨ c.toNat = 0x2D ∨ c.toNat = 0x2E := by
  simp only [isAllowed, Bool.or_eq_true, beq_iff_eq, or_assoc, ← Char.toNat_inj]
  rfl

lemma toNat_le_of_isAllowed (h : isAllowed c = true) : c.toNat ≤ 127 := by
  rw [isAllowed_iff, isAlnum_iff] at h
  omega

lemma toNat_lt_of_isNameByte (h : IsNameByte b) : b.toNat < 128 := by
  simp only [IsNameByte, IsAlnumByte, UInt8.le_iff_toNat_le, ← UInt8.toNat_inj, UInt8.reduceToNat] at h
  omega

section
variable (h : c.toNat ≤ 127)
include h

lemma isAlnumByte_iff : IsAlnumByte (UInt8.ofNat c.toNat) ↔ isAlnum c = true := by
  have hsame : c.toNat % 2 ^ 8 = c.toNat := Nat.mod_eq_of_lt (by omega)
  simp only [IsAlnumByte, UInt8.le_iff_toNat_le, UInt8.toNat_ofNat', hsame, isAlnum_iff]
  rfl

lemma isNameByte_iff : IsNameByte (UInt8.ofNat c.toNat) ↔ isAllowed c = true := by
  have hsame : c.toNat % 2 ^ 8 = c.toNat := Nat.mod_eq_of_lt (by omega)
  simp only [IsNameByte, isAlnumByte_iff h, isAllowed_iff, ← UInt8.toNat_inj, UInt8.toNat_ofNat', hsame]
  rfl

end

/-- A character whose bytes are allowed in names is one of those characters. -/
lemma isAllowed_of_encode (h : ∀ b ∈ String.utf8EncodeChar c, IsNameByte b) : isAllowed c = true := by
  obtain ⟨b, hb⟩ := List.exists_mem_of_ne_nil _ (String.utf8EncodeChar_ne_nil (c := c))
  have hc := Text.toNat_le_of_mem_encode hb (toNat_lt_of_isNameByte (h b hb))
  rw [Text.encode_of_le hc, List.forall_mem_singleton] at h
  exact (isNameByte_iff hc).1 h

lemma isAllowed_of_bytes (h : ∀ b ∈ Text.bytes name, IsNameByte b) : ∀ c ∈ name.toList, isAllowed c = true := by
  intro c hc
  apply isAllowed_of_encode
  intro b hb
  rw [Text.bytes_eq] at h
  exact h b (List.mem_flatMap.2 ⟨c, hc, hb⟩)

/-- The names that are accepted are those whose bytes follow the rule. -/
theorem validate_eq_ok_iff_wellFormed : validate name = .ok () ↔ WellFormed name := by
  rw [validate_eq_ok_iff]
  constructor
  · rintro ⟨hlong, hallowed, ⟨first, hfirst, hfirstAlnum⟩, last, hlast, hlastAlnum⟩
    have hascii : ∀ c ∈ name.toList, c.toNat ≤ 127 := fun c hc => toNat_le_of_isAllowed (hallowed c hc)
    have hbytes := Text.bytes_of_ascii hascii
    constructor
    · refine ⟨?_, hlong⟩
      rw [hbytes, List.length_map]
      exact List.length_pos_of_mem (List.mem_of_mem_head? hfirst)
    · rw [hbytes, List.forall_mem_map]
      exact fun c hc => (isNameByte_iff (hascii c hc)).2 (hallowed c hc)
    · rw [hbytes, List.head?_map, hfirst]
      rintro b ⟨⟩
      exact (isAlnumByte_iff (hascii first (List.mem_of_mem_head? hfirst))).2 hfirstAlnum
    · rw [hbytes, List.getLast?_map, hlast]
      rintro b ⟨⟩
      exact (isAlnumByte_iff (hascii last (List.mem_of_getLast? hlast))).2 hlastAlnum
  · rintro ⟨⟨hpos, hlong⟩, hallowed, hstart, hfinal⟩
    have hchars := isAllowed_of_bytes hallowed
    have hascii : ∀ c ∈ name.toList, c.toNat ≤ 127 := fun c hc => toNat_le_of_isAllowed (hchars c hc)
    rw [Text.bytes_of_ascii hascii] at hpos hstart hfinal
    rw [List.length_map] at hpos
    have hne : name.toList ≠ [] := List.ne_nil_of_length_pos hpos
    refine ⟨hlong, hchars, ⟨name.toList.head hne, List.head?_eq_some_head hne, ?_⟩,
      name.toList.getLast hne, List.getLast?_eq_some_getLast hne, ?_⟩
    · refine (isAlnumByte_iff (hascii _ (List.head_mem hne))).1 (hstart _ ?_)
      rw [List.head?_map, List.head?_eq_some_head hne]
      rfl
    · refine (isAlnumByte_iff (hascii _ (List.getLast_mem hne))).1 (hfinal _ ?_)
      rw [List.getLast?_map, List.getLast?_eq_some_getLast hne]
      rfl

lemma slash_notMem (h : validate name = .ok ()) : '/' ∉ name.toList := by
  intro hmem
  have hallowed := (validate_eq_ok_iff.1 h).2.1 '/' hmem
  exact absurd hallowed (by decide)

end Name

namespace Key
variable {s space name : String} {key : Key}

lemma toList_render (key : Key) : key.render.toList = key.space.toList ++ '/' :: key.name.toList := by
  simp [render]

/-- Keys are read as they are written, and nothing else is read. -/
theorem parse_eq_ok_iff : parse s = .ok key ↔
    s = key.render ∧ Name.validate key.space = .ok () ∧ Name.validate key.name = .ok () := by
  constructor
  · intro h
    unfold parse at h
    split_ifs at h with hempty
    split at h
    · simp at h
    · rename_i before after hsplit
      split_ifs at h with hextra
      obtain ⟨hspace, hname, rfl⟩ := of?_eq_ok_iff.1 h
      refine ⟨String.toList_injective ?_, hspace, hname⟩
      rw [toList_render, String.toList_ofList, String.toList_ofList]
      exact (Text.splitFirst_eq_some_iff.1 hsplit).1
  · rintro ⟨rfl, hspace, hname⟩
    have hsplit : Text.splitFirst (· == '/') key.render.toList = some (key.space.toList, key.name.toList) :=
      Text.splitFirst_eq_some_iff.2 ⟨toList_render key, Name.slash_notMem hspace⟩
    have hsingle : key.name.toList.contains '/' = false := by
      simpa using Name.slash_notMem hname
    have hnonempty : key.render.toList.isEmpty = false := by
      simp [toList_render]
    unfold parse
    simp only [hnonempty, hsplit, hsingle, Bool.false_eq_true, if_false, String.ofList_toList]
    exact of?_eq_ok_iff.2 ⟨hspace, hname, rfl⟩

lemma count_slash_render (hspace : Name.validate key.space = .ok ()) (hname : Name.validate key.name = .ok ()) :
    key.render.toList.count '/' = 1 := by
  rw [toList_render, List.count_append, List.count_cons_self,
    List.count_eq_zero_of_not_mem (Name.slash_notMem hspace), List.count_eq_zero_of_not_mem (Name.slash_notMem hname)]

/-- A text is read as a key exactly if it is two well-formed names with the only slash between them, and then the key
is written as this text. A key that is given for two names is read back from its text, so that its text tells it. -/
theorem parse_exactly :
    (∀ s, (∃ key, parse s = .ok key) ↔ ∃ space name, s = space ++ "/" ++ name ∧ s.toList.count '/' = 1 ∧
      Name.WellFormed space ∧ Name.WellFormed name) ∧
    (∀ s key, parse s = .ok key → toString key = s) ∧
    (∀ space name key, of? space name = .ok key → parse (toString key) = .ok key) ∧
    (∀ space name key space' name' key', of? space name = .ok key → of? space' name' = .ok key' →
      key ≠ key' → toString key ≠ toString key') := by
  have hback : ∀ space name key, of? space name = .ok key → parse key.render = .ok key := by
    intro space name key hkey
    obtain ⟨hspace, hname, rfl⟩ := of?_eq_ok_iff.1 hkey
    exact parse_eq_ok_iff.2 ⟨rfl, hspace, hname⟩
  refine ⟨fun s => ⟨?_, ?_⟩, fun s key hkey => ?_, hback, ?_⟩
  · rintro ⟨key, hkey⟩
    obtain ⟨rfl, hspace, hname⟩ := parse_eq_ok_iff.1 hkey
    exact ⟨key.space, key.name, rfl, count_slash_render hspace hname,
      Name.validate_eq_ok_iff_wellFormed.1 hspace, Name.validate_eq_ok_iff_wellFormed.1 hname⟩
  · rintro ⟨space, name, rfl, -, hspace, hname⟩
    exact ⟨⟨space, name⟩, parse_eq_ok_iff.2 ⟨rfl, Name.validate_eq_ok_iff_wellFormed.2 hspace,
      Name.validate_eq_ok_iff_wellFormed.2 hname⟩⟩
  · exact (parse_eq_ok_iff.1 hkey).1.symm
  · intro space name key space' name' key' hkey hkey' hne htext
    have hread := hback _ _ _ hkey
    rw [show key.render = key'.render from htext, hback _ _ _ hkey'] at hread
    exact hne (Except.ok.inj hread).symm

/-- A dash and a dot within a name, and an accented letter that is no letter of names. -/
theorem parse_exactly_accented :
    of? "jobs" "tick-60.a" = .ok ⟨"jobs", "tick-60.a"⟩ ∧
      parse (toString (⟨"jobs", "tick-60.a"⟩ : Key)) = .ok ⟨"jobs", "tick-60.a"⟩ ∧
      ¬∃ space name, "jobs/tické" = space ++ "/" ++ name ∧ "jobs/tické".toList.count '/' = 1 ∧
        Name.WellFormed space ∧ Name.WellFormed name := by
  have hkey : of? "jobs" "tick-60.a" = .ok ⟨"jobs", "tick-60.a"⟩ := by decide +kernel
  refine ⟨hkey, parse_exactly.2.2.1 _ _ _ hkey, ?_⟩
  rw [← parse_exactly.1]
  rintro ⟨key, hread⟩
  have hrefused : parse "jobs/tické" = .error (.badName "tické" .badCharacter) := by decide +kernel
  rw [hrefused] at hread
  simp at hread

end Key

end Timetable
