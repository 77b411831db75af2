import Mathlib.Data.List.Perm.Basic
import Timetable.Identity.Key
import Timetable.Proofs.Calendar.Instant

/-!
# The oldest items beyond a limit

Items are sorted by their starts, and those with the same start keep their order. What exceeds a limit is taken from
the front, so that nothing older is kept, and nothing is left to take from what is kept. Of items with keys in order
one is taken exactly when at least as many as the limit allows are younger.
-/

namespace Timetable

section
variable {α : Type}

/-- Sorting keeps the order among items that no comparison separates. -/
lemma filter_mergeSort {le : α → α → Bool} (htrans : ∀ a b c, le a b = true → le b c = true → le a c = true)
    (htotal : ∀ a b, (le a b || le b a) = true) {p : α → Bool} (htied : ∀ a b, p a → p b → le a b = true)
    (items : List α) : (items.mergeSort le).filter p = items.filter p := by
  have hsorted : (items.filter p).Pairwise fun a b => le a b = true :=
    List.pairwise_of_forall_mem_list fun a ha b hb => htied a b (List.mem_filter.1 ha).2 (List.mem_filter.1 hb).2
  have hsub : (items.filter p).Sublist ((items.mergeSort le).filter p) := by
    simpa using (List.sublist_mergeSort htrans htotal hsorted List.filter_sublist).filter p
  exact (hsub.eq_of_length ((List.mergeSort_perm items le).filter p).length_eq.symm).symm

/-- In a list in strict order, those that few come after are at the end. -/
lemma mem_take_iff {later : α → α → Bool} {items : List α} (hsorted : items.Pairwise fun a b => later a b = true)
    (hirrefl : ∀ a, later a a = false) (hasymm : ∀ a b, later a b = true → later b a = false) {a : α} (n : Nat) :
    a ∈ items.take (items.length - n) ↔ a ∈ items ∧ n ≤ items.countP (later a) := by
  induction items with
  | nil => simp
  | cons b rest ih =>
    obtain ⟨hb, hrest⟩ := List.pairwise_cons.1 hsorted
    have hself : rest.countP (later b) = rest.length := List.countP_eq_length.2 fun c hc => hb c hc
    have hback : ∀ c ∈ rest, later c b = false := fun c hc => hasymm b c (hb c hc)
    by_cases hn : n ≤ rest.length
    · rw [List.length_cons, Nat.succ_sub hn, List.take_succ_cons, List.mem_cons, ih hrest, List.mem_cons]
      constructor
      · rintro (rfl | ⟨ha, hcount⟩)
        · simp [hirrefl, hself, hn]
        · simp [ha, hback a ha, hcount]
      · rintro ⟨rfl | ha, hcount⟩
        · exact Or.inl rfl
        · right
          simpa [ha, hback a ha] using hcount
    · have hnone : (b :: rest).length - n = 0 := by
        rw [List.length_cons]
        omega
      rw [hnone, List.take_zero]
      simp only [List.not_mem_nil, false_iff, not_and, not_le, List.mem_cons]
      rintro (rfl | ha)
      · rw [List.countP_cons_of_neg (by simp [hirrefl]), hself]
        omega
      · rw [List.countP_cons_of_neg (by simp [hback a ha])]
        exact List.countP_le_length.trans_lt (by omega)

end

/-! ## Starts -/

section
variable {r s t : Option Instant}

lemma startsBefore_trans (hrs : startsBefore r s = true) (hst : startsBefore s t = true) :
    startsBefore r t = true := by
  cases r with
  | none => rfl
  | some a =>
    cases s with
    | none => simp [startsBefore] at hrs
    | some b =>
      cases t with
      | none => simp [startsBefore] at hst
      | some c => simpa [startsBefore] using (of_decide_eq_true hrs).trans (of_decide_eq_true hst)

lemma startsBefore_total (s t : Option Instant) : (startsBefore s t || startsBefore t s) = true := by
  cases s with
  | none => rfl
  | some a =>
    cases t with
    | none => rfl
    | some b => simpa [startsBefore] using le_total a b

lemma startsBefore_refl (t : Option Instant) : startsBefore t t = true := by
  simpa using startsBefore_total t t

lemma startsBefore_antisymm (hst : startsBefore s t = true) (hts : startsBefore t s = true) : s = t := by
  cases s with
  | none =>
    cases t with
    | none => rfl
    | some b => simp [startsBefore] at hts
  | some a =>
    cases t with
    | none => simp [startsBefore] at hst
    | some b => exact congrArg some ((of_decide_eq_true hst).antisymm (of_decide_eq_true hts))

/-- This is the order of the library on options, where `none` is the least. -/
lemma startsBefore_iff_le : startsBefore s t = true ↔ s ≤ t := by
  cases s <;> cases t <;> simp [startsBefore]

end

/-! ## The oldest beyond a limit -/

section
variable {α : Type} (start : α → Option Instant) (limit : Nat) (items : List α)

/-- The items by their starts, oldest first. -/
def byStart : List α :=
  items.mergeSort fun a b => startsBefore (start a) (start b)

lemma byStart_perm : (byStart start items).Perm items :=
  List.mergeSort_perm _ _

lemma byStart_trans (a b c : α) (hab : startsBefore (start a) (start b) = true)
    (hbc : startsBefore (start b) (start c) = true) : startsBefore (start a) (start c) = true :=
  startsBefore_trans hab hbc

lemma byStart_total (a b : α) : (startsBefore (start a) (start b) || startsBefore (start b) (start a)) = true :=
  startsBefore_total _ _

lemma pairwise_byStart : (byStart start items).Pairwise fun a b => start a ≤ start b :=
  (List.pairwise_mergeSort (byStart_trans start) (byStart_total start) items).imp startsBefore_iff_le.1

/-- Items with one start stand as they stood before. -/
lemma filter_byStart (t : Option Instant) :
    (byStart start items).filter (fun a => start a = t) = items.filter fun a => start a = t := by
  refine filter_mergeSort (byStart_trans start) (byStart_total start) ?_ items
  intro a b ha hb
  rw [of_decide_eq_true ha, of_decide_eq_true hb]
  exact startsBefore_refl t

lemma oldestExcess_eq : oldestExcess start limit items = (byStart start items).take (items.length - limit) := rfl

lemma length_oldestExcess : (oldestExcess start limit items).length = items.length - limit := by
  rw [oldestExcess_eq, List.length_take, (byStart_perm start items).length_eq]
  exact min_eq_left (Nat.sub_le _ _)

variable {start limit items}

/-- What a limit keeps is what comes last by the starts. -/
lemma perm_of_kept {kept : List α} (h : (oldestExcess start limit items ++ kept).Perm items) :
    kept.Perm ((byStart start items).drop (items.length - limit)) := by
  have hall := h.trans (byStart_perm start items).symm
  rw [← List.take_append_drop (items.length - limit) (byStart start items), ← oldestExcess_eq] at hall
  exact (List.perm_append_left_iff _).1 hall

lemma length_of_kept {kept : List α} (h : (oldestExcess start limit items ++ kept).Perm items) :
    kept.length ≤ limit := by
  have hlength := h.length_eq
  rw [List.length_append, length_oldestExcess] at hlength
  omega

lemma le_of_kept {kept : List α} (h : (oldestExcess start limit items ++ kept).Perm items) {a b : α}
    (ha : a ∈ oldestExcess start limit items) (hb : b ∈ kept) : start a ≤ start b := by
  have hsorted := pairwise_byStart start items
  rw [← List.take_append_drop (items.length - limit) (byStart start items), List.pairwise_append] at hsorted
  exact hsorted.2.2 a ha b ((perm_of_kept h).mem_iff.1 hb)

lemma oldestExcess_of_length_le (h : items.length ≤ limit) : oldestExcess start limit items = [] := by
  rw [oldestExcess_eq, Nat.sub_eq_zero_of_le h, List.take_zero]

/-- As many items as exceed the limit are taken, oldest first, and those with one start in the order in which they
stand. They started no later than any item that is kept, and of what is kept the limit takes nothing more. -/
theorem oldestExcess_takes_oldest (start : α → Option Instant) (limit : Nat) (items : List α) :
    (oldestExcess start limit items).length = items.length - limit ∧
    (∃ kept, (oldestExcess start limit items ++ kept).Perm items) ∧
    (oldestExcess start limit items).Pairwise (fun a b => start a ≤ start b) ∧
    (∀ t, (oldestExcess start limit items).filter (fun a => start a = t) <+: items.filter fun a => start a = t) ∧
    ∀ kept, (oldestExcess start limit items ++ kept).Perm items →
      (∀ a ∈ oldestExcess start limit items, ∀ b ∈ kept, start a ≤ start b) ∧
      ∀ larger, limit ≤ larger → oldestExcess start larger kept = [] := by
  refine ⟨length_oldestExcess start limit items, ?_, ?_, fun t => ?_, fun kept hkept => ⟨?_, ?_⟩⟩
  · refine ⟨(byStart start items).drop (items.length - limit), ?_⟩
    rw [oldestExcess_eq, List.take_append_drop]
    exact byStart_perm start items
  · exact (pairwise_byStart start items).sublist (List.take_sublist _ _)
  · rw [← filter_byStart start items t, oldestExcess_eq]
    exact (List.take_prefix _ _).filter _
  · exact fun a ha b hb => le_of_kept hkept ha hb
  · exact fun larger hlarger => oldestExcess_of_length_le ((length_of_kept hkept).trans hlarger)

/-- Runs by number and start: two have not started, and two have started together. -/
def numberedRuns : List (Nat × Option Instant) :=
  [(1, some (.ofSecond 5)), (2, none), (3, some (.ofSecond 5)), (4, some (.ofSecond 1)), (5, none)]

/-- Of two runs with one start the first one is taken, and those without a start before all others. -/
theorem oldestExcess_takes_oldest_tied :
    (oldestExcess Prod.snd 1 numberedRuns).map Prod.fst = [2, 5, 4, 1] ∧
    (oldestExcess Prod.snd 1 numberedRuns ++ [(3, some (Instant.ofSecond 5))]).Perm numberedRuns ∧
    (∀ a ∈ oldestExcess Prod.snd 1 numberedRuns, a.2 ≤ some (Instant.ofSecond 5)) ∧
    oldestExcess Prod.snd 2 [(3, some (Instant.ofSecond 5))] = [] := by
  have htakes : oldestExcess Prod.snd 1 numberedRuns =
      [(2, none), (5, none), (4, some (.ofSecond 1)), (1, some (.ofSecond 5))] := by
    simp +decide [oldestExcess, numberedRuns, startsBefore, List.mergeSort]
  have htaken : (oldestExcess Prod.snd 1 numberedRuns).map Prod.fst = [2, 5, 4, 1] := by
    rw [htakes]
    rfl
  have hperm : (oldestExcess Prod.snd 1 numberedRuns ++ [(3, some (Instant.ofSecond 5))]).Perm numberedRuns := by
    rw [htakes]
    decide
  obtain ⟨-, -, -, -, hkept⟩ := oldestExcess_takes_oldest Prod.snd 1 numberedRuns
  obtain ⟨hle, hnone⟩ := hkept _ hperm
  exact ⟨htaken, hperm, fun a ha => hle a ha _ List.mem_cons_self, hnone 2 (by decide)⟩

end

namespace WorkItem

/-- A work item started before another one, or at the same time and its key comes first. -/
def isOlder (v w : WorkItem) : Bool :=
  !startsBefore w.status.started v.status.started ||
    (v.status.started == w.status.started && (compare v.metadata.key w.metadata.key).isLT)

variable {v w : WorkItem}

lemma isOlder_irrefl (w : WorkItem) : w.isOlder w = false := by
  simp [isOlder, startsBefore_refl]

lemma isOlder_asymm (h : v.isOlder w = true) : w.isOlder v = false := by
  unfold isOlder at h ⊢
  by_cases hback : startsBefore w.status.started v.status.started
  · rw [hback] at h
    obtain ⟨hsame, hkey⟩ : v.status.started = w.status.started ∧
        compare v.metadata.key w.metadata.key = .lt := by simpa [Ordering.isLT_iff_eq_lt] using h
    have hgt : compare w.metadata.key v.metadata.key = .gt := Std.OrientedCmp.gt_of_lt hkey
    simp [hsame, startsBefore_refl, hgt]
  · have hforth : startsBefore v.status.started w.status.started = true := by
      simpa [hback] using startsBefore_total w.status.started v.status.started
    have hne : ¬w.status.started = v.status.started := by
      intro hsame
      rw [hsame] at hback
      exact hback (startsBefore_refl _)
    simp [hforth, hne]

/-- Sorting work items in key order by their starts puts the older ones first. -/
lemma pairwise_isOlder {items : List WorkItem}
    (hkeys : items.Pairwise fun v w => compare v.metadata.key w.metadata.key = .lt) :
    (byStart (·.status.started) items).Pairwise fun v w => v.isOlder w = true := by
  rw [List.pairwise_iff_forall_sublist]
  intro v w hvw
  have hle := List.pairwise_iff_forall_sublist.1 (pairwise_byStart (·.status.started) items) hvw
  unfold isOlder
  by_cases hback : startsBefore w.status.started v.status.started
  · -- neither started first, so both stand as they stood before
    have hsame := startsBefore_antisymm (startsBefore_iff_le.2 hle) hback
    have htied : [v, w].Sublist (items.filter fun u => u.status.started = v.status.started) := by
      rw [← filter_byStart (·.status.started) items v.status.started]
      simpa [hsame] using hvw.filter fun u => decide (u.status.started = v.status.started)
    have hkey := List.pairwise_iff_forall_sublist.1 (hkeys.sublist List.filter_sublist) htied
    simp [hsame, hkey]
  · simp [hback]

/-- A work item is pruned for a limit exactly when at least that many are younger. -/
theorem mem_oldestExcess_iff {items : List WorkItem}
    (hkeys : items.Pairwise fun v w => compare v.metadata.key w.metadata.key = .lt) (limit : Nat) :
    w ∈ oldestExcess (·.status.started) limit items ↔
      w ∈ items ∧ limit ≤ items.countP fun v => w.isOlder v := by
  have hperm := byStart_perm (·.status.started) items
  have htake := mem_take_iff (a := w) (pairwise_isOlder hkeys) isOlder_irrefl (fun _ _ => isOlder_asymm) limit
  rw [oldestExcess_eq, ← hperm.length_eq, htake, hperm.mem_iff, hperm.countP_eq]

end WorkItem

end Timetable
