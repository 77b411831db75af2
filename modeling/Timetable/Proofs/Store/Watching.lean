import Timetable.Proofs.Store.Journal
import Timetable.Store.Watch

/-!
# Watches deliver the journal

A watch serves a reader if what it has delivered and what it still holds back are a stretch of the journal that begins
where it was opened. It does so when it is opened and after each poll, and what a poll delivers is the next change. A
watch is cut off only when too much of the journal is undelivered.
-/

namespace Timetable.Watch
variable {s : Store} {past : List Store} {cs ds delivered : List Change} {w rest : Watch} {c : Change}
  {v opened seen : Nat}

/-! ## Opening -/

/-- The change after a version is gone exactly when all that is kept is later. -/
lemma gone_iff (hc : Chronicle (s :: past)) (hv : v < s.version) :
    (∀ c ∈ s.history, c.version ≠ v + 1) ↔ ∀ oldest ∈ s.history.head?, v + 1 < oldest.version := by
  have hfollow := hc.history_follow
  have hlength := hc.length_history
  constructor
  · intro hnone oldest holdest
    have hversion := hfollow.version_getElem? (n := 0) (List.head?_eq_getElem? ▸ holdest)
    by_contra hreach
    -- the change would stand this far behind the oldest one
    have hin : v - (s.version - Store.historyLimit) < s.history.length := by omega
    refine hnone _ (List.getElem_mem hin) ?_
    rw [hfollow.version_getElem? (List.getElem?_eq_getElem hin)]
    omega
  · intro hgone c hmem
    have hlt := hfollow.lt_version hmem
    generalize s.history = kept at *
    cases kept with
    | nil => simp at hmem
    | cons oldest later =>
      have hoff := hgone oldest rfl
      have hversion := hfollow.head
      omega

/-- A watch is refused exactly when the next change is made already and no longer kept; it begins with all
of the journal after its version. -/
theorem openAt_eq (hc : Chronicle (s :: past)) (v : Nat) :
    openAt s v = if v < s.version ∧ ∀ c ∈ s.history, c.version ≠ v + 1
      then .error (.unavailable s!"watch from version {v} is no longer available")
      else .ok ⟨v, (journal (s :: past)).drop v, s.version⟩ := by
  by_cases hrefused : v < s.version ∧ ∀ c ∈ s.history, c.version ≠ v + 1
  · have hgone := (gone_iff hc hrefused.1).1 hrefused.2
    rw [if_pos hrefused]
    unfold openAt
    cases hhead : s.history.head? with
    | none => simp [hrefused.1]
    | some oldest => simp [hrefused.1, hgone oldest hhead]
  · -- the history reaches back to a version whose next change it has
    have hreach : s.version ≤ v + Store.historyLimit := by
      by_contra hfar
      apply hrefused
      refine ⟨by omega, fun c hmem => ?_⟩
      have hlt := hc.history_follow.lt_version hmem
      omega
    rw [if_neg hrefused, ← hc.filter_history hreach]
    unfold openAt
    by_cases hv : v < s.version
    · have hthere := mt (gone_iff hc hv).2 fun hgone => hrefused ⟨hv, hgone⟩
      push Not at hthere
      obtain ⟨oldest, hhead, hle⟩ := hthere
      rw [Option.mem_def] at hhead
      simp [hhead, hle]
    · simp [hv]

/-! ## Polling -/

/-- What the store has for a watch that holds nothing back. -/
def news (w : Watch) (s : Store) : List Change :=
  s.history.filter fun c => decide (w.position < c.version) && decide (w.start < c.version)

lemma poll_of_backlog (hbacklog : w.backlog = c :: cs) : w.poll s = .change c { w with backlog := cs } := by
  unfold poll
  rw [hbacklog]

lemma poll_of_cut (hbacklog : w.backlog = []) (hcut : w.position + capacity < s.version) :
    w.poll s = .ended := by
  unfold poll
  simp only [hbacklog, if_pos hcut]

lemma poll_of_cons (hbacklog : w.backlog = []) (hkeep : ¬w.position + capacity < s.version)
    (hnews : w.news s = c :: cs) : w.poll s = .change c { w with position := c.version } := by
  unfold poll
  simp only [hbacklog, if_neg hkeep]
  rw [← List.head?_filter, ← news, hnews]
  rfl

lemma poll_of_nil (hbacklog : w.backlog = []) (hkeep : ¬w.position + capacity < s.version)
    (hnews : w.news s = []) : w.poll s = .waiting { w with position := s.version } := by
  unfold poll
  simp only [hbacklog, if_neg hkeep]
  rw [← List.head?_filter, ← news, hnews]
  rfl

lemma drain_of_cut (hcut : w.position + capacity < s.version) : w.drain s = (w.backlog, none) :=
  if_pos hcut

lemma drain_of_keep (hkeep : ¬w.position + capacity < s.version) :
    w.drain s = (w.backlog ++ w.news s, some { w with backlog := [], position := s.version }) :=
  if_neg hkeep

/-- The store still has all that a watch wants next, unless the watch has fallen too far behind. -/
lemma news_eq (hc : Chronicle (s :: past)) (hkeep : ¬w.position + capacity < s.version) :
    w.news s = (journal (s :: past)).drop (max w.position w.start) := by
  have hreach : s.version ≤ max w.position w.start + Store.historyLimit := by
    unfold capacity at hkeep
    unfold Store.historyLimit
    omega
  rw [← hc.filter_history hreach, news]
  apply List.filter_congr
  intro c _
  rw [← Bool.decide_and]
  exact decide_eq_decide.2 Nat.max_lt.symm

/-! ## Delivering -/

/-- What a watch has delivered and what it holds back are the journal from the version `v` on. It was opened
when the store had the version `opened`. -/
structure Serves (cs : List Change) (v opened : Nat) (delivered : List Change) (w : Watch) : Prop where
  start : w.start = v
  inOrder : delivered ++ w.backlog <+: cs.drop v
  position_le : w.position ≤ cs.length
  reached : v + (delivered ++ w.backlog).length = max w.position v
  opened_le : min v opened ≤ w.position

namespace Serves

lemma mono (h : w.Serves cs v opened delivered) (hcs : cs <+: ds) : w.Serves ds v opened delivered where
  start := h.start
  inOrder := by
    obtain ⟨new, rfl⟩ := hcs
    rw [List.drop_append]
    exact h.inOrder.trans (List.prefix_append _ _)
  position_le := h.position_le.trans hcs.length_le
  reached := h.reached
  opened_le := h.opened_le

/-- What was delivered and held back is followed by the journal after it. -/
lemma drop_eq (h : w.Serves cs v opened delivered) :
    cs.drop v = (delivered ++ w.backlog) ++ cs.drop (max w.position v) := by
  obtain ⟨rest, hrest⟩ := h.inOrder
  rw [← h.reached, ← List.drop_drop, ← hrest, List.drop_left]

lemma of_openAt (hc : Chronicle (s :: past)) (hopen : openAt s v = .ok w) :
    w.Serves (journal (s :: past)) v s.version [] := by
  have hlength := hc.length_journal
  rw [openAt_eq hc] at hopen
  split_ifs at hopen
  rw [← Except.ok.inj hopen]
  constructor
  · rfl
  · exact List.prefix_rfl
  · exact hlength.ge
  · rw [List.nil_append, List.length_drop, hlength]
    dsimp only
    omega
  · exact min_le_right v s.version

/-- The watch goes on with the next changes of the journal. -/
lemma advance (h : w.Serves cs v opened delivered) (hnext : ds <+: cs.drop (max w.position v))
    (position : Nat) (hle : w.position ≤ position) (hin : position ≤ cs.length)
    (hreached : max w.position v + ds.length = max position v) :
    Serves cs v opened (delivered ++ w.backlog ++ ds) { w with backlog := [], position } := by
  have hbefore := h.reached
  constructor
  · exact h.start
  · rw [List.append_nil, h.drop_eq]
    exact (List.prefix_append_right_inj _).2 hnext
  · exact hin
  · rw [List.append_nil, List.length_append]
    dsimp only
    omega
  · exact h.opened_le.trans hle

/-- How far a watch is behind when it is cut off. -/
lemma cut (h : w.Serves cs v opened delivered) {n : Nat} (hcut : w.position + capacity < n) :
    min v opened + (delivered ++ w.backlog).length + capacity < n := by
  have hreached := h.reached
  have hopened := h.opened_le
  omega

/-- A change that is held back is the next one of the journal. -/
lemma pop {held : List Change} (h : w.Serves cs v opened delivered) (hbacklog : w.backlog = c :: held) :
    cs[v + delivered.length]? = some c ∧
      Serves cs v opened (delivered ++ [c]) { w with backlog := held } := by
  have hheld : delivered ++ [c] ++ held = delivered ++ w.backlog := by
    rw [hbacklog, List.append_assoc, List.singleton_append]
  constructor
  · rw [← List.getElem?_drop, h.drop_eq, hbacklog]
    simp
  · constructor
    · exact h.start
    · rw [hheld]
      exact h.inOrder
    · exact h.position_le
    · rw [hheld]
      exact h.reached
    · exact h.opened_le

section
variable (h : w.Serves cs v opened delivered) (hbacklog : w.backlog = [])
include h hbacklog

lemma reached_of_nil : v + delivered.length = max w.position v := by
  have hreached := h.reached
  rwa [hbacklog, List.append_nil] at hreached

/-- With nothing held back the watch fetches the next change. -/
lemma fetch (hget : cs[v + delivered.length]? = some c) (hversion : c.version = v + delivered.length + 1) :
    Serves cs v opened (delivered ++ [c]) { w with position := c.version } := by
  have hreached := h.reached_of_nil hbacklog
  obtain ⟨hin, hc⟩ := List.getElem?_eq_some_iff.1 hget
  have hone : [c] <+: cs.drop (max w.position v) := by
    rw [← hreached, List.drop_eq_getElem_cons hin, hc]
    exact List.prefix_append [c] _
  have hmoved := h.advance hone c.version (by omega) (by omega) (by
    rw [List.length_singleton]
    omega)
  rw [hbacklog, List.append_nil] at hmoved
  simpa [hbacklog] using hmoved

/-- With nothing held back and nothing left of the journal the watch waits. -/
lemma wait (hall : cs.length ≤ v + delivered.length) :
    Serves cs v opened delivered { w with position := cs.length } := by
  have hreached := h.reached_of_nil hbacklog
  have hposition := h.position_le
  have hmoved := h.advance List.nil_prefix cs.length hposition le_rfl (by
    rw [List.length_nil]
    omega)
  rw [hbacklog, List.append_nil, List.append_nil] at hmoved
  simpa [hbacklog] using hmoved

end

/-- A poll delivers the next change of the journal, or finds that there is none. -/
theorem poll (h : w.Serves (journal (s :: past)) v opened delivered) (hc : Chronicle (s :: past)) :
    match w.poll s with
    | .change c rest => (journal (s :: past))[v + delivered.length]? = some c ∧
        rest.Serves (journal (s :: past)) v opened (delivered ++ [c])
    | .waiting rest => s.version ≤ v + delivered.length ∧
        rest.Serves (journal (s :: past)) v opened delivered
    | .ended => min v opened + delivered.length + capacity < s.version := by
  obtain ⟨hfollow, hlength⟩ := hc.journal_follow
  cases hbacklog : w.backlog with
  | cons c held =>
    rw [poll_of_backlog hbacklog]
    exact h.pop hbacklog
  | nil =>
    by_cases hcut : w.position + capacity < s.version
    · have hbehind := h.cut hcut
      rw [hbacklog, List.append_nil] at hbehind
      rw [poll_of_cut hbacklog hcut]
      exact hbehind
    · have hnews : w.news s = (journal (s :: past)).drop (v + delivered.length) := by
        rw [news_eq hc hcut, h.start, h.reached_of_nil hbacklog]
      cases hnext : (journal (s :: past)).drop (v + delivered.length) with
      | nil =>
        have hall := List.drop_eq_nil_iff.1 hnext
        have hwaits := h.wait hbacklog hall
        rw [hlength] at hall hwaits
        rw [poll_of_nil hbacklog hcut (hnews.trans hnext)]
        exact ⟨hall, hwaits⟩
      | cons c later =>
        have hget : (journal (s :: past))[v + delivered.length]? = some c := by
          rw [← List.head?_drop, hnext]
          rfl
        have hversion : c.version = v + delivered.length + 1 := by
          rw [hfollow.version_getElem? hget, Nat.zero_add]
        rw [poll_of_cons hbacklog hcut (hnews.trans hnext)]
        exact ⟨hget, h.fetch hbacklog hget hversion⟩

/-- Draining delivers all of the journal that is undelivered, unless it ends the watch. -/
theorem drain (h : w.Serves (journal (s :: past)) v opened delivered) (hc : Chronicle (s :: past)) :
    match w.drain s with
    | (ready, some rest) => rest.Serves (journal (s :: past)) v opened (delivered ++ ready)
    | (ready, none) => delivered ++ ready <+: (journal (s :: past)).drop v ∧
        min v opened + (delivered ++ ready).length + capacity < s.version := by
  have hlength := hc.length_journal
  by_cases hcut : w.position + capacity < s.version
  · rw [drain_of_cut hcut]
    exact ⟨h.inOrder, h.cut hcut⟩
  · have hmoved := h.advance (List.prefix_refl _) s.version (hlength ▸ h.position_le)
      hlength.ge (by
        have hin := h.position_le
        rw [List.length_drop]
        omega)
    have hnews := news_eq hc hcut
    rw [h.start] at hnews
    rw [drain_of_keep hcut, hnews]
    rw [List.append_assoc] at hmoved
    exact hmoved

end Serves

/-! ## Following -/

/-- A watch that was opened at a version which the store had come to has delivered all changes up to the version `seen`. -/
def Tracks (cs : List Change) (seen : Nat) (w : Watch) : Prop :=
  ∃ v opened delivered, v ≤ opened ∧ w.Serves cs v opened delivered ∧ v + delivered.length = seen

namespace Tracks

lemma mono (h : w.Tracks cs seen) (hcs : cs <+: ds) : w.Tracks ds seen := by
  obtain ⟨v, opened, delivered, hv, hserves, hseen⟩ := h
  exact ⟨v, opened, delivered, hv, hserves.mono hcs, hseen⟩

lemma of_openAt (hc : Chronicle (s :: past)) (hv : v ≤ s.version) (hopen : openAt s v = .ok w) :
    w.Tracks (journal (s :: past)) v :=
  ⟨v, s.version, [], hv, .of_openAt hc hopen, rfl⟩

lemma start_le (h : w.Tracks cs seen) : w.start ≤ w.position := by
  obtain ⟨v, opened, delivered, hv, hserves, -⟩ := h
  rw [hserves.start, ← min_eq_left hv]
  exact hserves.opened_le

/-- A poll gives the change after the version seen, or leaves that version as it is. -/
theorem poll (h : w.Tracks (journal (s :: past)) seen) (hc : Chronicle (s :: past)) :
    match w.poll s with
    | .change c rest => c.version = seen + 1 ∧ Recorded (s :: past) c ∧
        rest.Tracks (journal (s :: past)) (seen + 1)
    | .waiting rest => rest.Tracks (journal (s :: past)) seen
    | .ended => True := by
  obtain ⟨v, opened, delivered, hv, hserves, rfl⟩ := h
  have hpoll := hserves.poll hc
  split
  · rename_i c rest hfound
    rw [hfound] at hpoll
    obtain ⟨hget, hrest⟩ := hpoll
    refine ⟨?_, hc.recorded (List.mem_of_getElem? hget), v, opened, delivered ++ [c], hv, hrest, ?_⟩
    · rw [hc.journal_follow.1.version_getElem? hget, Nat.zero_add]
    · rw [List.length_append, List.length_singleton, Nat.add_assoc]
  · rename_i rest hfound
    rw [hfound] at hpoll
    exact ⟨v, opened, delivered, hv, hpoll.2, rfl⟩
  · trivial

end Tracks

end Timetable.Watch
