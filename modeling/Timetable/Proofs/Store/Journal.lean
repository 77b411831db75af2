import Timetable.Proofs.Store.Chronicle

/-!
# The journal of a run

All changes that a run of requests has made, oldest first. The history of a store is the end of the journal,
and replaying a stretch of the journal over the listing where it begins gives the listing where it ends.
-/

namespace Timetable

/-- The stores of requests served one after the other from the empty store on, the last one first. -/
inductive Served : List Store → Prop
  | start : Served [.empty]
  | serve {s : Store} {past : List Store} (r : Request) :
      Served (s :: past) → Served (s.stages r ++ s :: past)

namespace Served
variable {s : Store} {past stores : List Store}

lemma chronicle (h : Served stores) : Chronicle stores := by
  induction h with
  | start => exact .start
  | serve r _ ih => exact ih.stages r

lemma request (h : Served (s :: past)) (r : Request) :
    Served (s.serve r :: ((s.stages r).tail ++ s :: past)) := by
  rw [← List.cons_append, Store.stages_tail (h.chronicle.keyed List.mem_cons_self)]
  exact h.serve r

end Served

namespace Store
variable {s t : Store} {c : Change}

/-- The change that takes a store to the next one, if there is one. -/
def made (s t : Store) : Option Change :=
  if s.version < t.version then t.history.getLast? else none

lemma getLast?_remember (history : List Change) (c : Change) :
    (remember history c).getLast? = some c := by
  have hshort : ¬(history ++ [c]).length ≤ history.length + 1 - historyLimit := by
    rw [List.length_append, List.length_singleton, historyLimit]
    omega
  unfold remember
  rw [List.getLast?_drop, if_neg hshort, List.getLast?_concat]

lemma made_of_sameData (h : SameData t s) : s.made t = none := by
  unfold made
  rw [h.version, if_neg (lt_irrefl _)]

lemma made_of_remember (hversion : t.version = s.version + 1) (hhistory : t.history = remember s.history c) :
    s.made t = some c := by
  unfold made
  rw [hversion, if_pos (Nat.lt_succ_self _), hhistory, getLast?_remember]

end Store

/-- The changes that a run has made, oldest first. -/
def journal : List Store → List Change
  | t :: s :: past => journal (s :: past) ++ (s.made t).toList
  | _ => []

lemma journal_cons (t s : Store) (past : List Store) :
    journal (t :: s :: past) = journal (s :: past) ++ (s.made t).toList := rfl

lemma journal_append (new : List Store) (s : Store) (past : List Store) :
    journal (s :: past) <+: journal (new ++ s :: past) := by
  induction new with
  | nil => exact List.prefix_rfl
  | cons t rest ih =>
    cases rest with
    | nil => exact List.prefix_append _ _
    | cons u rest => exact ih.trans (List.prefix_append _ _)

namespace Chronicle
variable {stores past : List Store} {s t u : Store}

/-- One turn leaves the journal as it is or adds the change of the next version to it. -/
lemma journal_turn (h : s.Turn t) (past : List Store) :
    (Store.SameData t s ∧ journal (t :: s :: past) = journal (s :: past)) ∨
      ∃ c : Change, c.version = s.version + 1 ∧ t.version = s.version + 1 ∧
        t.objects = s.objects.apply c ∧ t.history = Store.remember s.history c ∧
        journal (t :: s :: past) = journal (s :: past) ++ [c] := by
  obtain hsame | ⟨c, hcv, htv, hobjects, hhistory⟩ := h.cases
  · left
    rw [journal_cons, Store.made_of_sameData hsame]
    exact ⟨hsame, List.append_nil _⟩
  · right
    rw [journal_cons, Store.made_of_remember htv hhistory]
    exact ⟨c, hcv, htv, hobjects, hhistory, rfl⟩

/-- The journal has one change for each version. -/
theorem journal_follow (h : Chronicle (s :: past)) :
    Follow 0 (journal (s :: past)) ∧ (journal (s :: past)).length = s.version := by
  generalize hstores : s :: past = stores at h
  induction h generalizing s past with
  | start =>
    obtain rfl := (List.cons.inj hstores).1
    exact ⟨.nil 0, rfl⟩
  | @turn last next old _ hturn ih =>
    obtain rfl := (List.cons.inj hstores).1
    obtain ⟨hfollow, hlength⟩ := ih rfl
    obtain ⟨hsame, hjournal⟩ | ⟨c, hcv, hv, -, -, hjournal⟩ := journal_turn hturn old
    · rw [hjournal, hsame.version]
      exact ⟨hfollow, hlength⟩
    · rw [hjournal, List.length_append, hlength, hv]
      refine ⟨hfollow.append (.cons ?_ (.nil _)), rfl⟩
      rw [hcv, hlength, Nat.zero_add]

lemma length_journal (h : Chronicle (s :: past)) : (journal (s :: past)).length = s.version :=
  h.journal_follow.2

/-- The history is the end of the journal. -/
theorem history_eq (h : Chronicle (s :: past)) :
    s.history = (journal (s :: past)).drop (s.version - Store.historyLimit) := by
  generalize hstores : s :: past = stores at h
  induction h generalizing s past with
  | start =>
    obtain rfl := (List.cons.inj hstores).1
    rfl
  | @turn last next old hc hturn ih =>
    obtain rfl := (List.cons.inj hstores).1
    have hlength := hc.length_journal
    have hlast := ih rfl
    obtain ⟨hsame, hjournal⟩ | ⟨c, -, hv, -, hhistory, hjournal⟩ := journal_turn hturn old
    · rw [hjournal, hsame.version, hsame.history]
      exact hlast
    · have hkept : last.version - Store.historyLimit ≤ (journal (last :: old)).length := by omega
      have hall : last.history ++ [c] =
          (journal (last :: old) ++ [c]).drop (last.version - Store.historyLimit) := by
        rw [List.drop_append_of_le_length hkept, ← hlast]
      have hmany : last.history.length = last.version - (last.version - Store.historyLimit) := by
        rw [hlast, List.length_drop, hlength]
      have hdropped : last.version - Store.historyLimit +
          (last.version - (last.version - Store.historyLimit) + 1 - Store.historyLimit) =
            last.version + 1 - Store.historyLimit := by omega
      rw [hhistory, hjournal, hv]
      unfold Store.remember
      rw [hall, List.drop_drop, hmany, hdropped]

/-- Replaying the journal up to a version gives the listing at it. -/
theorem replay_eq (h : Chronicle stores) (ht : t ∈ stores) :
    ((journal stores).take t.version).foldl Listing.apply .empty = t.objects := by
  induction h generalizing t with
  | start =>
    rw [List.mem_singleton.1 ht]
    rfl
  | @turn last next old hc hturn ih =>
    have hlength := hc.length_journal
    have hfull := ih (t := last) List.mem_cons_self
    rw [List.take_of_length_le hlength.le] at hfull
    obtain ⟨hsame, hjournal⟩ | ⟨c, -, hv, hobjects, -, hjournal⟩ := journal_turn hturn old
    · rw [hjournal]
      obtain rfl | ht := List.mem_cons.1 ht
      · rw [hsame.version, hsame.objects, List.take_of_length_le hlength.le]
        exact hfull
      · exact ih ht
    · rw [hjournal]
      obtain rfl | ht := List.mem_cons.1 ht
      · have hshort : (journal (last :: old) ++ [c]).length ≤ t.version := by
          rw [List.length_append, hlength, hv, List.length_singleton]
        rw [List.take_of_length_le hshort, List.foldl_append, hfull, hobjects]
        rfl
      · have hle := hc.version_le_head ht
        rw [List.take_append_of_le_length (by omega)]
        exact ih ht

/-- The changes between two versions take the listing at the first one to the listing at the second. -/
theorem replay_between (h : Chronicle stores) (ht : t ∈ stores) (hu : u ∈ stores)
    (hle : t.version ≤ u.version) :
    (((journal stores).drop t.version).take (u.version - t.version)).foldl Listing.apply t.objects =
      u.objects := by
  have hsplit : (journal stores).take u.version =
      (journal stores).take t.version ++
        ((journal stores).drop t.version).take (u.version - t.version) := by
    rw [← List.take_add, Nat.add_sub_cancel' hle]
  rw [← h.replay_eq hu, hsplit, List.foldl_append, h.replay_eq ht]

/-- Every change of the journal was made. -/
theorem recorded (h : Chronicle stores) {c : Change} (hc : c ∈ journal stores) : Recorded stores c := by
  induction h with
  | start => simp [journal] at hc
  | @turn last next old _ hturn ih =>
    have hsub : last :: old ⊆ next :: last :: old := List.subset_cons_self _ _
    obtain ⟨-, hjournal⟩ | ⟨d, hdv, hv, hobjects, -, hjournal⟩ := journal_turn hturn old
    · rw [hjournal] at hc
      exact (ih hc).mono hsub
    · rw [hjournal, List.mem_append, List.mem_singleton] at hc
      obtain hc | rfl := hc
      · exact (ih hc).mono hsub
      · exact ⟨last, List.mem_cons_of_mem _ List.mem_cons_self, next, List.mem_cons_self, hdv, hv, hobjects⟩

lemma history_follow (h : Chronicle (s :: past)) : Follow (s.version - Store.historyLimit) s.history := by
  have hin : s.version - Store.historyLimit ≤ (journal (s :: past)).length := by
    rw [h.length_journal]
    exact Nat.sub_le _ _
  have hfollow := h.journal_follow.1.drop hin
  rwa [Nat.zero_add, ← h.history_eq] at hfollow

lemma length_history (h : Chronicle (s :: past)) :
    s.history.length = s.version - (s.version - Store.historyLimit) := by
  rw [h.history_eq, List.length_drop, h.length_journal]

/-- What is still kept of the journal after a version that the history reaches. -/
lemma filter_history (h : Chronicle (s :: past)) {v : Nat} (hv : s.version ≤ v + Store.historyLimit) :
    s.history.filter (fun c => decide (v < c.version)) = (journal (s :: past)).drop v := by
  have hdropped : s.version - Store.historyLimit + (v - (s.version - Store.historyLimit)) = v := by omega
  rw [h.history_follow.filter_lt, h.history_eq, List.drop_drop, hdropped]

end Chronicle

end Timetable
