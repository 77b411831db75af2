import Timetable.Proofs.Queue.Operations

/-!
# Ends of work that nobody does

Anybody may say that the work on a key has ended, at any time and for any key. A queue is dependable if it holds
no key twice and a look never brings a key that is still worked on. The main result is that a queue stays dependable
exactly as long as nobody ends the work on a key that is queued: that queues the key a second time, while every
other end of work that nobody does changes nothing.
-/

namespace Timetable.WorkQueue
variable {κ : Type} [DecidableEq κ] {q : WorkQueue κ} {k : κ}

/-- What anybody may do with a queue, without any discipline: calls, looks, and ends of the work on any key. -/
inductive Move (κ : Type)
  | call (now : Nat) (a : Call κ)
  | look (now : Nat)
  | done (k : κ)

def move (q : WorkQueue κ) : Move κ → WorkQueue κ
  | .call now a => (q.call now a).1
  | .look now => (q.get now).2
  | .done k => (q.done k).1

/-- The queue after these moves, made one after the other. -/
def moved (q : WorkQueue κ) (moves : List (Move κ)) : WorkQueue κ :=
  moves.foldl move q

/-- No key is queued twice, and a look never brings a key that is still worked on. -/
structure Dependable (q : WorkQueue κ) : Prop where
  nodup : q.queue.Nodup
  idle : ∀ now k rest, q.get now = (.key k, rest) → k ∉ q.processing

/-- Whenever the work on a key is ended, the key is not queued. -/
def SparesQueued (q : WorkQueue κ) (moves : List (Move κ)) : Prop :=
  ∀ earlier k later, moves = earlier ++ .done k :: later → k ∉ (q.moved earlier).queue

/-! ## Single ends -/

/-- Where nobody works on a key, the end of the work only queues the key, and only if it is dirty. -/
lemma done_of_idle (hk : k ∉ q.processing) :
    (q.done k).1 = { q with queue := q.queue ++ if k ∈ q.dirty then [k] else [] } := by
  have hsame : without q.processing k = q.processing :=
    List.filter_eq_self.2 fun j hj => decide_eq_true fun hjk => hk (hjk ▸ hj)
  unfold done
  rw [hsame]
  by_cases hd : k ∈ q.dirty
  · simp only [if_pos hd]
  · simp only [if_neg hd, List.append_nil]

/-- An exclusive queue stays as it is exactly if the key is not queued. -/
lemma Exclusive.done_eq_self_iff (h : Exclusive q) (hk : k ∉ q.processing) :
    (q.done k).1 = q ↔ k ∉ q.queue := by
  have hqueued : k ∈ q.queue ↔ k ∈ q.dirty := by
    rw [h.queued_iff k]
    exact and_iff_left hk
  rw [hqueued, done_of_idle hk]
  constructor
  · intro hsame hd
    have hqueue := congrArg WorkQueue.queue hsame
    rw [if_pos hd] at hqueue
    simp at hqueue
  · intro hd
    rw [if_neg hd, List.append_nil]

lemma Exclusive.not_nodup_done (h : Exclusive q) (hk : k ∈ q.queue) : ¬(q.done k).1.queue.Nodup := by
  rw [done_queue, if_pos ((h.queued_iff k).1 hk).1]
  intro hn
  exact List.disjoint_of_nodup_append hn hk (List.mem_singleton_self k)

/-! ## Runs -/

lemma Exclusive.call (h : Exclusive q) (now : Nat) (a : Call κ) : Exclusive (q.call now a).1 := by
  cases a with
  | add k => exact h.add k
  | addAfter k delay => exact h.addAfter now k delay
  | addRateLimited k => exact h.addRateLimited now k
  | forget k => exact h.forget k
  | shutDown => exact h.shutDown

/-- Of all moves only the end of the work on a queued key does harm. -/
theorem Exclusive.move (h : Exclusive q) {m : Move κ} (hm : ∀ k, m = .done k → k ∉ q.queue) :
    Exclusive (q.move m) := by
  cases m with
  | call now a => exact h.call now a
  | look now => exact h.get now
  | done k =>
    by_cases hk : k ∈ q.processing
    · exact h.done hk
    · have hsame : q.move (.done k) = q := (h.done_eq_self_iff hk).2 (hm k rfl)
      rw [hsame]
      exact h

lemma Exclusive.dependable (h : Exclusive q) : Dependable q :=
  ⟨h.nodup, fun _ _ _ hg => get_not_processing h hg⟩

lemma sparesQueued_nil : SparesQueued q ([] : List (Move κ)) := by
  intro earlier k later hsplit
  simp at hsplit

lemma sparesQueued_cons {m : Move κ} {moves : List (Move κ)} :
    SparesQueued q (m :: moves) ↔ (∀ k, m = .done k → k ∉ q.queue) ∧ SparesQueued (q.move m) moves := by
  constructor
  · intro h
    refine ⟨fun k hm => ?_, fun earlier k later hsplit => ?_⟩
    · exact h [] k moves (by rw [hm, List.nil_append])
    · exact h (m :: earlier) k later (by rw [hsplit, List.cons_append])
  · rintro ⟨hfirst, hrest⟩ earlier k later hsplit
    cases earlier with
    | nil => exact hfirst k (List.cons.inj hsplit).1
    | cons n earlier =>
      obtain ⟨rfl, hmoves⟩ := List.cons.inj hsplit
      exact hrest earlier k later hmoves

theorem Exclusive.moved (h : Exclusive q) {moves : List (Move κ)} (hm : SparesQueued q moves) :
    Exclusive (q.moved moves) := by
  induction moves generalizing q with
  | nil => exact h
  | cons m moves ih =>
    obtain ⟨hfirst, hrest⟩ := sparesQueued_cons.1 hm
    exact ih (h.move hfirst) hrest

lemma SparesQueued.of_prefix {earlier moves : List (Move κ)} (h : SparesQueued q moves) (hp : earlier <+: moves) :
    SparesQueued q earlier := by
  obtain ⟨later, rfl⟩ := hp
  intro first k rest hsplit
  exact h first k (rest ++ later) (by rw [hsplit, List.append_assoc, List.cons_append])

/-- The first end of work on a queued key leaves a queue that is not dependable. -/
lemma Exclusive.sparesQueued_of_dependable (h : Exclusive q) {moves : List (Move κ)}
    (hd : ∀ earlier, earlier <+: moves → Dependable (q.moved earlier)) : SparesQueued q moves := by
  induction moves generalizing q with
  | nil => exact sparesQueued_nil
  | cons m moves ih =>
    have hfirst : ∀ k, m = .done k → k ∉ q.queue := by
      rintro k rfl hk
      exact h.not_nodup_done hk (hd [.done k] (List.prefix_append [.done k] moves)).nodup
    refine sparesQueued_cons.2 ⟨hfirst, ih (h.move hfirst) fun earlier hp => ?_⟩
    exact hd (m :: earlier) ((List.prefix_cons_inj m).2 hp)

/-- Whatever is done with a queue, the end of work that nobody does leaves all but the row of queued keys as it is,
and appends the key to that row exactly if the key is dirty. The queue is dependable in all states of a run exactly if
no key is queued when the work on it is ended; then such an end changes nothing unless its key is queued. -/
theorem strays_harmless_iff (policy : BackoffPolicy) (moves : List (Move κ)) :
    let q := (new policy).moved moves
    (∀ k ∉ q.processing, (q.done k).1 = { q with queue := q.queue ++ if k ∈ q.dirty then [k] else [] }) ∧
    ((∀ earlier, earlier <+: moves → Dependable ((new policy).moved earlier)) ↔ SparesQueued (new policy) moves) ∧
    (SparesQueued (new policy) moves → ∀ k ∉ q.processing, ((q.done k).1 = q ↔ k ∉ q.queue)) := by
  have hnew : Exclusive (new policy : WorkQueue κ) := .new policy
  refine ⟨fun k hk => done_of_idle hk, ⟨hnew.sparesQueued_of_dependable, fun hs earlier hp => ?_⟩, fun hs k hk => ?_⟩
  · exact (hnew.moved (hs.of_prefix hp)).dependable
  · exact (hnew.moved hs).done_eq_self_iff hk

/-- The work on key 1 is ended twice, then that on the delayed key 2 and on the unknown key 3. -/
def lateEnds : List (Move Nat) :=
  [.call 0 (.add 1), .look 0, .call 0 (.addAfter 2 5), .done 1, .done 1, .done 2, .done 3]

/-- None of the late ends does harm. -/
theorem strays_harmless_lateEnds :
    SparesQueued (new .standard) lateEnds ∧ Dependable ((new .standard).moved lateEnds) ∧
      2 ∉ ((new .standard).moved lateEnds).processing ∧
      (((new .standard).moved lateEnds).done 2).1 = (new .standard).moved lateEnds := by
  have hspares : SparesQueued (new .standard) lateEnds := by
    simp only [lateEnds, sparesQueued_cons, sparesQueued_nil, Move.done.injEq, forall_eq', reduceCtorEq,
      false_imp_iff, implies_true, true_and, and_true]
    decide +kernel
  obtain ⟨-, hdependable, hsame⟩ := strays_harmless_iff .standard lateEnds
  have hidle : 2 ∉ ((new .standard).moved lateEnds).processing := by decide +kernel
  exact ⟨hspares, hdependable.2 hspares lateEnds List.prefix_rfl, hidle, (hsame hspares 2 hidle).2 (by decide +kernel)⟩

/-- The end of the work on a queued key, on which nobody works, queues it twice. Two looks hand it out then, the second
one while it is worked on. -/
theorem done_of_queued_repeats :
    let added := (new .standard : WorkQueue Nat).moved [.call 0 (.add 1)]
    let first := ((added.done 1).1.get 0).2
    1 ∉ added.processing ∧ added.queue = [1] ∧ (added.done 1).1.queue = [1, 1] ∧
      ((added.done 1).1.get 0).1 = .key 1 ∧ 1 ∈ first.processing ∧ (first.get 0).1 = .key 1 := by
  decide +kernel

end Timetable.WorkQueue
