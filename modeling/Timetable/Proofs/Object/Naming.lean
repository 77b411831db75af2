import Timetable.Proofs.Object.Children
import Timetable.Proofs.Store.Keeping

/-!
# Names of children

The name of a child ends in the digits of a number, and the dash before them is the last one. A minus sign before this
dash cannot belong to the name of the schedule, which does not end in a dash. So a name tells schedule and second, also
where one schedule has the name of another one's child.
-/

namespace Timetable

namespace WorkItem
variable {name : String} {fire : Instant} {second : Int} {c : Char}

/-! ## Valid names -/

/-- What stands after the name of the schedule. -/
def suffix (second : Int) : List Char :=
  secondSign second ++ '-' :: Nat.toDigits 10 second.natAbs

lemma childName_eq (name : String) (fire : Instant) :
    childName name fire = name ++ String.ofList (suffix fire.second) := by
  apply String.toList_injective
  rw [toList_childName, String.toList_append, String.toList_ofList, List.append_assoc, suffix]

lemma isDigit_of_mem_toDigits {n : Nat} (h : c ∈ Nat.toDigits 10 n) : c.isDigit = true :=
  Nat.isDigit_of_mem_toDigits (by decide) (by decide) h

lemma mem_suffix (h : c ∈ suffix second) : c = '-' ∨ c.isDigit = true := by
  rw [suffix, List.mem_append, List.mem_cons] at h
  obtain h | rfl | h := h
  · unfold secondSign at h
    split_ifs at h
    · simp at h
    · exact .inl (List.mem_singleton.1 h)
  · exact .inl rfl
  · exact .inr (isDigit_of_mem_toDigits h)

lemma utf8Size_of_mem_suffix (h : c ∈ suffix second) : c.utf8Size = 1 := by
  obtain rfl | hdigit := mem_suffix h
  · decide
  · rw [Char.utf8Size_eq_one_iff]
    simp only [Char.isDigit, Bool.and_eq_true, decide_eq_true_eq] at hdigit
    exact UInt32.le_trans hdigit.2 (by decide)

lemma isAllowed_of_mem_suffix (h : c ∈ suffix second) : Name.isAllowed c = true := by
  obtain rfl | hdigit := mem_suffix h
  · decide
  · simp [Name.isAllowed, Name.isAlnum, hdigit]

lemma getLast?_suffix (second : Int) : ∃ c, (suffix second).getLast? = some c ∧ Name.isAlnum c = true := by
  have hne : Nat.toDigits 10 second.natAbs ≠ [] := List.ne_nil_of_length_pos Nat.length_toDigits_pos
  refine ⟨(Nat.toDigits 10 second.natAbs).getLast hne, ?_, ?_⟩
  · rw [suffix, List.getLast?_append, List.getLast?_cons, List.getLast?_eq_some_getLast hne]
    rfl
  · simp [Name.isAlnum, isDigit_of_mem_toDigits (List.getLast_mem hne)]

/-- Ten digits, or a sign and nine digits, after the dash. -/
lemma length_suffix_le (hlow : -999999999 ≤ second) (hhigh : second ≤ 9999999999) :
    (suffix second).length ≤ Schedule.childSuffixLength := by
  unfold suffix secondSign Schedule.childSuffixLength
  split_ifs with hsign
  · have hten : (Nat.toDigits 10 second.natAbs).length ≤ 10 :=
      (Nat.length_toDigits_le_iff (b := 10) (by decide) (by decide)).2 (by omega)
    rw [List.nil_append, List.length_cons]
    omega
  · have hnine : (Nat.toDigits 10 second.natAbs).length ≤ 9 :=
      (Nat.length_toDigits_le_iff (b := 10) (by decide) (by decide)).2 (by omega)
    rw [List.singleton_append, List.length_cons, List.length_cons]
    omega

/-- A schedule whose name leaves room for the suffix has children with valid names. -/
theorem validate_childName (hname : Name.validate name = .ok ()) (hroom : name.utf8ByteSize ≤ Schedule.maxNameLength)
    (hlow : -999999999 ≤ fire.second) (hhigh : fire.second ≤ 9999999999) :
    Name.validate (childName name fire) = .ok () := by
  obtain ⟨-, hallowed, ⟨first, hfirst, hfirstAlnum⟩, -⟩ := Name.validate_eq_ok_iff.1 hname
  obtain ⟨last, hlast, hlastAlnum⟩ := getLast?_suffix fire.second
  rw [childName_eq, Name.validate_eq_ok_iff, String.toList_append, String.toList_ofList]
  refine ⟨?_, fun c hc => ?_, ⟨first, ?_, hfirstAlnum⟩, last, ?_, hlastAlnum⟩
  · have hlength := length_suffix_le hlow hhigh
    rw [String.utf8ByteSize_append, Text.utf8ByteSize_eq_length fun c => utf8Size_of_mem_suffix]
    unfold Schedule.maxNameLength at hroom
    have hfits : Schedule.childSuffixLength ≤ Name.maxLength := by decide
    omega
  · obtain hc | hc := List.mem_append.1 hc
    · exact hallowed c hc
    · exact isAllowed_of_mem_suffix hc
  · rw [List.head?_append, hfirst]
    rfl
  · rw [List.getLast?_append, hlast]
    rfl

/-! ## Children of different schedules or seconds -/

/-- What the schedule of a key launches for a second. -/
def ChildOf (w : WorkItem) (owner : Key) (second : Int) : Prop :=
  ∃ (s : Schedule) (fire : Instant), Name.validate s.metadata.name = .ok () ∧ s.metadata.key = owner ∧
    fire.second = second ∧ ofTemplate s fire = .ok w

/-- The key of a child tells the schedule and the second. -/
lemma ChildOf.eq_of_key {v w : WorkItem} {owner owner' : Key} {second second' : Int} (hv : v.ChildOf owner second)
    (hw : w.ChildOf owner' second') (hkey : v.metadata.key = w.metadata.key) : owner = owner' ∧ second = second' := by
  obtain ⟨x, t, hx, rfl, rfl, hv⟩ := hv
  obtain ⟨y, u, hy, rfl, rfl, hw⟩ := hw
  rw [(ofTemplate_spec hv).1, (ofTemplate_spec hw).1, Key.mk.injEq] at hkey
  obtain ⟨hname, hsecond⟩ := childName_inj hx hy hkey.2
  exact ⟨Key.mk.injEq .. ▸ ⟨hkey.1, hname⟩, hsecond⟩

end WorkItem

namespace Store
variable {s : Store} {key : Key}

/-- Work items are created one after the other, whatever the answers are. -/
def createEach (s : Store) (items : List (Stamp × WorkItem)) : Store :=
  items.foldl (fun s item => (s.createWorkItem item.1 item.2).2) s

lemma workItems_create_of_ne (s : Store) (stamp : Stamp) {v : WorkItem} (hne : v.metadata.key ≠ key) :
    (s.createWorkItem stamp v).2.objects.workItems[key]? = s.objects.workItems[key]? := by
  obtain ⟨e, t, hcreate, hsame⟩ | ⟨-, t, hcreate, hsame⟩ := s.createWorkItem_cases stamp v
  · rw [hcreate, hsame.objects]
  · rw [hcreate, hsame.objects]
    exact workItems_put.trans (if_neg hne)

lemma workItems_createEach_of_ne {items : List (Stamp × WorkItem)} (hne : ∀ item ∈ items, item.2.metadata.key ≠ key) :
    (s.createEach items).objects.workItems[key]? = s.objects.workItems[key]? := by
  induction items generalizing s with
  | nil => rfl
  | cons item items ih =>
    rw [List.forall_mem_cons] at hne
    exact (ih hne.2).trans (workItems_create_of_ne s item.1 hne.1)

end Store

namespace WorkItem

/-- Children have one name exactly if the names of their schedules and the seconds of their fires are the same. So
children that are created for other schedules of valid names or for other seconds leave the place of a child alone. -/
theorem childNames_never_collide :
    (∀ m n : String, Name.validate m = .ok () → Name.validate n = .ok () → ∀ t u : Instant,
      (childName m t = childName n u ↔ m = n ∧ t.second = u.second)) ∧
    ∀ (s : Store) (w : WorkItem) (owner : Key) (second : Int), w.ChildOf owner second →
      ∀ others : List (Stamp × WorkItem),
        (∀ other ∈ others, ∃ owner' second', other.2.ChildOf owner' second' ∧ (owner', second') ≠ (owner, second)) →
        (s.createEach others).objects.workItems[w.metadata.key]? = s.objects.workItems[w.metadata.key]? := by
  refine ⟨fun m n hm hn t u => ⟨childName_inj hm hn, ?_⟩, fun s w owner second hw others hothers => ?_⟩
  · rintro ⟨rfl, hsecond⟩
    unfold childName
    rw [hsecond]
  · refine Store.workItems_createEach_of_ne fun other hmem hkey => ?_
    obtain ⟨owner', second', hother, hne⟩ := hothers other hmem
    obtain ⟨howner, hsecond⟩ := hother.eq_of_key hw hkey
    exact hne (Prod.ext howner hsecond)

/-! ## A schedule with the name of a child -/

/-- A schedule that is named like the child of `Schedule.minutely` for the first minute. -/
def lookalike : Schedule :=
  { Schedule.minutely with metadata := { Schedule.minutely.metadata with name := "tick-60" } }

/-- The two schedules do not compete, not even with fires before 1970. -/
theorem childNames_never_collide_lookalike :
    childName "tick" (.ofSecond 60) = lookalike.metadata.name ∧
      childName "tick" (.ofSecond (-60)) ≠ childName lookalike.metadata.name (.ofSecond (-60)) ∧
      ∃ v w : WorkItem, v.ChildOf Schedule.minutely.metadata.key (-60) ∧ w.ChildOf lookalike.metadata.key (-60) ∧
        (Store.empty.createEach [(.blank, v)]).objects.workItems[w.metadata.key]? = none := by
  have htick : Name.validate "tick" = .ok () := by decide +kernel
  have hlookalike : Name.validate lookalike.metadata.name = .ok () := by decide +kernel
  obtain ⟨v, hv⟩ : ∃ v, ofTemplate Schedule.minutely (.ofSecond (-60)) = .ok v :=
    ⟨_, ofTemplate_eq_ok_iff.2 ⟨nofun, validate_childName htick (by decide) (by decide) (by decide), rfl⟩⟩
  obtain ⟨w, hw⟩ : ∃ w, ofTemplate lookalike (.ofSecond (-60)) = .ok w :=
    ⟨_, ofTemplate_eq_ok_iff.2 ⟨nofun, validate_childName hlookalike (by decide) (by decide) (by decide), rfl⟩⟩
  obtain ⟨hnames, hplace⟩ := childNames_never_collide
  have hchild : v.ChildOf Schedule.minutely.metadata.key (-60) := ⟨_, _, htick, rfl, rfl, hv⟩
  have hother : w.ChildOf lookalike.metadata.key (-60) := ⟨_, _, hlookalike, rfl, rfl, hw⟩
  refine ⟨by decide +kernel, fun hsame => ?_, v, w, hchild, hother, ?_⟩
  · have hname := ((hnames _ _ htick hlookalike _ _).1 hsame).1
    exact absurd hname (by decide)
  · rw [hplace Store.empty w _ _ hother [(.blank, v)] ?_]
    · rfl
    · intro other hmem
      rw [List.mem_singleton.1 hmem]
      exact ⟨_, _, hchild, by decide⟩

end WorkItem

end Timetable
