import Mathlib.Data.List.Nodup
import Mathlib.Logic.Relation
import Timetable.Queue.Basic

/-!
# Exclusive work on keys

A crew is a work queue with the keys that were handed out to its workers. `Exclusive` ties the queue, the
dirty keys and the keys in work together; it is kept by every operation, and the reachable crews never
hand out a key that somebody still works on.
-/

namespace Timetable

namespace WorkQueue
variable {κ : Type} [DecidableEq κ] {q : WorkQueue κ}

/-- The queue holds each key once, and it holds exactly the dirty keys that nobody works on. -/
structure Exclusive (q : WorkQueue κ) : Prop where
  nodup : q.queue.Nodup
  queued_iff : ∀ k, k ∈ q.queue ↔ k ∈ q.dirty ∧ k ∉ q.processing

@[simp]
lemma mem_without {keys : List κ} {k j : κ} : j ∈ without keys k ↔ j ∈ keys ∧ j ≠ k := by
  simp [without]

@[simp]
lemma mem_withKey {keys : List κ} {k j : κ} : j ∈ withKey keys k ↔ j ∈ keys ∨ j = k := by
  unfold withKey
  split_ifs with h
  · constructor
    · exact Or.inl
    · rintro (hj | rfl)
      · exact hj
      · exact h
  · simp

omit [DecidableEq κ] in
lemma Exclusive.not_processing (h : Exclusive q) {k : κ} (hk : k ∈ q.queue) : k ∉ q.processing :=
  ((h.queued_iff k).1 hk).2

omit [DecidableEq κ] in
lemma Exclusive.new (policy : BackoffPolicy) : Exclusive (WorkQueue.new policy : WorkQueue κ) :=
  ⟨List.nodup_nil, by simp [WorkQueue.new]⟩

/-! ## Adding -/

lemma add_processing (q : WorkQueue κ) (k : κ) : (q.add k).1.processing = q.processing := by
  unfold add
  dsimp only
  split_ifs <;> rfl

/-- A key is appended only when it is neither dirty, hence not queued, nor in work. -/
theorem Exclusive.add (h : Exclusive q) (k : κ) : Exclusive (q.add k).1 := by
  unfold WorkQueue.add
  dsimp only
  split_ifs with hk hp
  · exact h
  · refine ⟨h.nodup, fun j => ?_⟩
    have hj := h.queued_iff j
    simp only [List.mem_append, List.mem_singleton]
    constructor
    · intro hq
      exact ⟨Or.inl (hj.1 hq).1, (hj.1 hq).2⟩
    · rintro ⟨hd | rfl, hn⟩
      · exact hj.2 ⟨hd, hn⟩
      · exact absurd hp hn
  · have hd : k ∉ q.dirty := fun hd => hk (Or.inr hd)
    have hq : k ∉ q.queue := fun hq => hd ((h.queued_iff k).1 hq).1
    refine ⟨?_, fun j => ?_⟩
    · simpa using h.nodup.concat hq
    · have hj := h.queued_iff j
      simp only [List.mem_append, List.mem_singleton]
      constructor
      · rintro (hjq | rfl)
        · exact ⟨Or.inl (hj.1 hjq).1, (hj.1 hjq).2⟩
        · exact ⟨Or.inr rfl, hp⟩
      · rintro ⟨hjd | rfl, hn⟩
        · exact Or.inl (hj.2 ⟨hjd, hn⟩)
        · exact Or.inr rfl

lemma await_queue (q : WorkQueue κ) (k : κ) (deadline : Nat) :
    (q.await k deadline).queue = q.queue ∧ (q.await k deadline).dirty = q.dirty ∧
      (q.await k deadline).processing = q.processing := by
  unfold await
  split <;> exact ⟨rfl, rfl, rfl⟩

lemma addAfter_processing (q : WorkQueue κ) (now : Nat) (k : κ) (delay : Nat) :
    (q.addAfter now k delay).1.processing = q.processing := by
  unfold addAfter
  split_ifs
  · exact add_processing q k
  · rfl
  · exact (await_queue q k _).2.2

theorem Exclusive.addAfter (h : Exclusive q) (now : Nat) (k : κ) (delay : Nat) :
    Exclusive (q.addAfter now k delay).1 := by
  unfold WorkQueue.addAfter
  split_ifs
  · exact h.add k
  · exact h
  · obtain ⟨hq, hd, hp⟩ := await_queue q k (now + delay)
    exact ⟨hq ▸ h.nodup, by simpa only [hq, hd, hp] using h.queued_iff⟩

lemma addRateLimited_processing (q : WorkQueue κ) (now : Nat) (k : κ) :
    (q.addRateLimited now k).1.processing = q.processing :=
  addAfter_processing _ now k _

theorem Exclusive.addRateLimited (h : Exclusive q) (now : Nat) (k : κ) :
    Exclusive (q.addRateLimited now k).1 :=
  Exclusive.addAfter (q := { q with failures := (q.failures.record k).2 })
    ⟨h.nodup, h.queued_iff⟩ now k _

theorem Exclusive.forget (h : Exclusive q) (k : κ) : Exclusive (q.forget k) :=
  ⟨h.nodup, h.queued_iff⟩

/-! ## Handing out -/

/-- Due keys are queued by adding them one by one, so what adding keeps a promotion keeps too. -/
lemma promote_induction {P : WorkQueue κ → Prop} (q : WorkQueue κ) (now : Nat) (h : P q)
    (hadd : ∀ q k, P q → P ({ q with waiting := q.waiting.filter (·.1 ≠ k) }.add k).1) :
    P (q.promote now) := by
  unfold promote
  generalize q.due now = entries
  induction entries generalizing q with
  | nil => exact h
  | cons e rest ih => exact ih _ (hadd q e.1 h)

lemma promote_processing (q : WorkQueue κ) (now : Nat) :
    (q.promote now).processing = q.processing :=
  promote_induction (P := fun p => p.processing = q.processing) q now rfl
    fun _ k hp => (add_processing _ k).trans hp

theorem Exclusive.promote (h : Exclusive q) (now : Nat) : Exclusive (q.promote now) :=
  promote_induction (P := Exclusive) q now h fun p k hp =>
    Exclusive.add (q := { p with waiting := p.waiting.filter (·.1 ≠ k) }) ⟨hp.nodup, hp.queued_iff⟩ k

lemma get_cases (q : WorkQueue κ) (now : Nat) :
    (∃ k rest, (q.promote now).queue = k :: rest ∧
      q.get now = (.key k, { q.promote now with
        queue := rest
        dirty := without (q.promote now).dirty k
        processing := withKey (q.promote now).processing k })) ∨
    (∃ answer, (∀ k, answer ≠ .key k) ∧ q.get now = (answer, q.promote now)) := by
  unfold get
  cases hq : (q.promote now).queue with
  | cons k rest => exact Or.inl ⟨k, rest, rfl, by simp [hq]⟩
  | nil =>
    refine Or.inr ⟨if (q.promote now).closed then .closed else .empty, fun k => ?_, by simp [hq]⟩
    split_ifs <;> simp

theorem get_not_processing (h : Exclusive q) {now : Nat} {k : κ} {q' : WorkQueue κ}
    (hg : q.get now = (.key k, q')) : k ∉ q.processing := by
  obtain ⟨j, rest, hq, hget⟩ | ⟨answer, ha, hget⟩ := get_cases q now
  · obtain ⟨hjk, -⟩ := Prod.mk.inj (hget.symm.trans hg)
    obtain rfl := Look.key.inj hjk
    rw [← promote_processing q now]
    exact (h.promote now).not_processing (hq ▸ List.mem_cons_self)
  · exact absurd (Prod.mk.inj (hget.symm.trans hg)).1 (ha k)

lemma get_processing_of_key {now : Nat} {k : κ} {q' : WorkQueue κ}
    (hg : q.get now = (.key k, q')) : ∀ j, j ∈ q'.processing ↔ j ∈ q.processing ∨ j = k := by
  obtain ⟨i, rest, -, hget⟩ | ⟨answer, ha, hget⟩ := get_cases q now
  · obtain ⟨hik, rfl⟩ := Prod.mk.inj (hget.symm.trans hg)
    obtain rfl := Look.key.inj hik
    simp [promote_processing]
  · exact absurd (Prod.mk.inj (hget.symm.trans hg)).1 (ha k)

lemma get_processing_of_none {now : Nat} {answer : Look κ} {q' : WorkQueue κ}
    (hg : q.get now = (answer, q')) (ha : ∀ k, answer ≠ .key k) : q'.processing = q.processing := by
  obtain ⟨k, rest, -, hget⟩ | ⟨answer', -, hget⟩ := get_cases q now
  · exact absurd (Prod.mk.inj (hget.symm.trans hg)).1.symm (ha k)
  · rw [← (Prod.mk.inj (hget.symm.trans hg)).2, promote_processing]

theorem Exclusive.get (h : Exclusive q) (now : Nat) : Exclusive (q.get now).2 := by
  have hp := h.promote now
  obtain ⟨k, rest, hq, hget⟩ | ⟨answer, -, hget⟩ := get_cases q now
  · rw [hget]
    have hn := hp.nodup
    rw [hq, List.nodup_cons] at hn
    refine ⟨hn.2, fun j => ?_⟩
    have hj := hp.queued_iff j
    rw [hq, List.mem_cons] at hj
    simp only [mem_without, mem_withKey]
    constructor
    · intro hr
      have hjk : j ≠ k := fun e => hn.1 (e ▸ hr)
      obtain ⟨hd, hjp⟩ := hj.1 (Or.inr hr)
      exact ⟨⟨hd, hjk⟩, fun hor => hor.elim hjp hjk⟩
    · rintro ⟨⟨hd, hjk⟩, hjp⟩
      exact (hj.2 ⟨hd, fun hm => hjp (Or.inl hm)⟩).resolve_left hjk
  · rw [hget]
    exact hp

/-! ## Ending -/

lemma done_processing (q : WorkQueue κ) (k : κ) :
    (q.done k).1.processing = without q.processing k := by
  unfold done
  dsimp only
  split_ifs <;> rfl

/-- The worker's own key is not queued, so queueing it again keeps the queue without repetition. -/
theorem Exclusive.done (h : Exclusive q) {k : κ} (hk : k ∈ q.processing) :
    Exclusive (q.done k).1 := by
  have hq : k ∉ q.queue := fun hq => h.not_processing hq hk
  unfold WorkQueue.done
  dsimp only
  split_ifs with hd
  · refine ⟨?_, fun j => ?_⟩
    · simpa using h.nodup.concat hq
    · have hj := h.queued_iff j
      simp only [List.mem_append, List.mem_singleton, mem_without]
      constructor
      · rintro (hjq | rfl)
        · exact ⟨(hj.1 hjq).1, fun hm => (hj.1 hjq).2 hm.1⟩
        · exact ⟨hd, fun hm => hm.2 rfl⟩
      · rintro ⟨hjd, hn⟩
        by_cases hjk : j = k
        · exact Or.inr hjk
        · exact Or.inl (hj.2 ⟨hjd, fun hm => hn ⟨hm, hjk⟩⟩)
  · refine ⟨h.nodup, fun j => ?_⟩
    have hj := h.queued_iff j
    simp only [mem_without]
    constructor
    · intro hjq
      exact ⟨(hj.1 hjq).1, fun hm => (hj.1 hjq).2 hm.1⟩
    · rintro ⟨hjd, hn⟩
      have hjk : j ≠ k := fun e => hd (e ▸ hjd)
      exact hj.2 ⟨hjd, fun hm => hn ⟨hm, hjk⟩⟩

omit [DecidableEq κ] in
theorem Exclusive.shutDown (h : Exclusive q) : Exclusive q.shutDown.1 :=
  ⟨h.nodup, h.queued_iff⟩

end WorkQueue

/-! ## Crews -/

/-- A work queue with the keys that workers were handed and have not finished. -/
structure Crew (κ ι : Type) where
  queue : WorkQueue κ
  held : List (ι × κ)

namespace Crew
variable {κ ι : Type} [DecidableEq κ] [DecidableEq ι] {c c' : Crew κ ι}

def new (policy : BackoffPolicy) : Crew κ ι :=
  ⟨.new policy, []⟩

/-- One operation by anybody, at any time. A worker that waits for a key looks again and again; the look
that brings a key hands it out. Only the worker that holds a key is done with it, however its work
ended. -/
inductive Step (c : Crew κ ι) : Crew κ ι → Prop
  | add (k : κ) : Step c { c with queue := (c.queue.add k).1 }
  | addAfter (now : Nat) (k : κ) (delay : Nat) :
      Step c { c with queue := (c.queue.addAfter now k delay).1 }
  | addRateLimited (now : Nat) (k : κ) :
      Step c { c with queue := (c.queue.addRateLimited now k).1 }
  | forget (k : κ) : Step c { c with queue := c.queue.forget k }
  | handOut (now : Nat) (worker : ι) (k : κ) (queue : WorkQueue κ)
      (got : c.queue.get now = (.key k, queue)) : Step c ⟨queue, (worker, k) :: c.held⟩
  | lookInVain (now : Nat) (answer : WorkQueue.Look κ) (queue : WorkQueue κ)
      (got : c.queue.get now = (answer, queue)) (nothing : ∀ k, answer ≠ .key k) :
      Step c { c with queue }
  | done (worker : ι) (k : κ) (held : (worker, k) ∈ c.held) :
      Step c ⟨(c.queue.done k).1, c.held.erase (worker, k)⟩
  | shutDown : Step c { c with queue := c.queue.shutDown.1 }

def Reachable (policy : BackoffPolicy) : Crew κ ι → Prop :=
  Relation.ReflTransGen Step (new policy)

/-- The queue is exclusive, and the keys in work are the keys held, each by one worker. -/
structure Orderly (c : Crew κ ι) : Prop where
  exclusive : c.queue.Exclusive
  held_iff : ∀ k, k ∈ c.queue.processing ↔ k ∈ c.held.map Prod.snd
  held_nodup : (c.held.map Prod.snd).Nodup

omit [DecidableEq κ] [DecidableEq ι] in
lemma Orderly.of_processing (h : Orderly c) {queue : WorkQueue κ} (he : queue.Exclusive)
    (hp : queue.processing = c.queue.processing) : Orderly { c with queue } :=
  ⟨he, by simpa only [hp] using h.held_iff, h.held_nodup⟩

lemma mem_erase_held {held : List (ι × κ)} (hn : (held.map Prod.snd).Nodup) {worker : ι} {k : κ}
    (hk : (worker, k) ∈ held) (j : κ) :
    j ∈ (held.erase (worker, k)).map Prod.snd ↔ j ∈ held.map Prod.snd ∧ j ≠ k := by
  rw [(List.Nodup.of_map _ hn).erase_eq_filter]
  constructor
  · intro hj
    obtain ⟨⟨v, i⟩, hmem, rfl⟩ := List.mem_map.1 hj
    obtain ⟨hheld, hne⟩ := List.mem_filter.1 hmem
    refine ⟨List.mem_map.2 ⟨_, hheld, rfl⟩, fun e => ?_⟩
    have hpair := List.inj_on_of_nodup_map hn hheld hk e
    simp [hpair] at hne
  · rintro ⟨hj, hne⟩
    obtain ⟨⟨v, i⟩, hheld, rfl⟩ := List.mem_map.1 hj
    refine List.mem_map.2 ⟨_, List.mem_filter.2 ⟨hheld, ?_⟩, rfl⟩
    simp only [bne_iff_ne, ne_eq, Prod.mk.injEq, not_and]
    exact fun _ => hne

theorem Orderly.step (h : Orderly c) (hs : Step c c') : Orderly c' := by
  cases hs with
  | add k => exact h.of_processing (h.exclusive.add k) (WorkQueue.add_processing _ k)
  | addAfter now k delay =>
    exact h.of_processing (h.exclusive.addAfter now k delay) (WorkQueue.addAfter_processing _ now k delay)
  | addRateLimited now k =>
    exact h.of_processing (h.exclusive.addRateLimited now k)
      (WorkQueue.addRateLimited_processing _ now k)
  | forget k => exact h.of_processing (h.exclusive.forget k) rfl
  | handOut now worker k queue got =>
    have hfresh : k ∉ c.held.map Prod.snd := fun hm =>
      WorkQueue.get_not_processing h.exclusive got ((h.held_iff k).2 hm)
    refine ⟨?_, fun j => ?_, ?_⟩
    · simpa only [got] using h.exclusive.get now
    · rw [WorkQueue.get_processing_of_key got j, h.held_iff j]
      simp only [List.map_cons, List.mem_cons]
      exact or_comm
    · exact List.nodup_cons.2 ⟨hfresh, h.held_nodup⟩
  | lookInVain now answer queue got nothing =>
    refine h.of_processing ?_ (WorkQueue.get_processing_of_none got nothing)
    simpa only [got] using h.exclusive.get now
  | done worker k held =>
    have hk : k ∈ c.queue.processing := (h.held_iff k).2 (List.mem_map.2 ⟨_, held, rfl⟩)
    refine ⟨h.exclusive.done hk, fun j => ?_, ?_⟩
    · rw [WorkQueue.done_processing, WorkQueue.mem_without, h.held_iff j,
        mem_erase_held h.held_nodup held]
    · exact h.held_nodup.sublist (List.erase_sublist.map _)
  | shutDown => exact h.of_processing h.exclusive.shutDown rfl

theorem Orderly.of_reachable {policy : BackoffPolicy} (h : Reachable policy c) : Orderly c := by
  induction h with
  | refl => exact ⟨.new policy, by simp [new, WorkQueue.new], List.nodup_nil⟩
  | tail _ hs ih => exact ih.step hs

/-- In every reachable crew the queue holds no key twice and no key that is in work, it holds exactly the
dirty keys that are not in work, and a look never brings a key that some worker still holds. -/
theorem reachable_exclusive {policy : BackoffPolicy} (h : Reachable policy c) :
    c.queue.queue.Nodup ∧
    (∀ k, ¬(k ∈ c.queue.queue ∧ k ∈ c.queue.processing)) ∧
    (∀ k, k ∈ c.queue.queue ↔ k ∈ c.queue.dirty ∧ k ∉ c.queue.processing) ∧
    (∀ k, k ∈ c.queue.processing ↔ ∃ worker, (worker, k) ∈ c.held) ∧
    (∀ now k queue, c.queue.get now = (.key k, queue) → ∀ worker, (worker, k) ∉ c.held) := by
  have ho := Orderly.of_reachable h
  have hheld : ∀ k, k ∈ c.queue.processing ↔ ∃ worker, (worker, k) ∈ c.held := by
    intro k
    rw [ho.held_iff k]
    simp
  refine ⟨ho.exclusive.nodup, ?_, ho.exclusive.queued_iff, hheld, ?_⟩
  · rintro k ⟨hq, hp⟩
    exact ho.exclusive.not_processing hq hp
  · intro now k queue got worker hw
    exact WorkQueue.get_not_processing ho.exclusive got ((hheld k).2 ⟨worker, hw⟩)

def look (c : Crew κ ι) (now : Nat) (worker : ι) : Crew κ ι :=
  match c.queue.get now with
  | (.key k, queue) => ⟨queue, (worker, k) :: c.held⟩
  | (_, queue) => { c with queue }

omit [DecidableEq ι] in
lemma look_cases (c : Crew κ ι) (now : Nat) (worker : ι) :
    (∃ k queue, c.queue.get now = (.key k, queue) ∧ c.look now worker = ⟨queue, (worker, k) :: c.held⟩) ∨
      ∃ answer queue, c.queue.get now = (answer, queue) ∧ (∀ k, answer ≠ .key k) ∧
        c.look now worker = { c with queue } := by
  unfold look
  cases hgot : c.queue.get now with
  | mk answer queue =>
    cases answer with
    | key k => exact Or.inl ⟨k, queue, rfl, rfl⟩
    | closed => exact Or.inr ⟨.closed, queue, rfl, by simp, rfl⟩
    | empty => exact Or.inr ⟨.empty, queue, rfl, by simp, rfl⟩

lemma look_step (c : Crew κ ι) (now : Nat) (worker : ι) : Step c (c.look now worker) := by
  obtain ⟨k, queue, hgot, hlook⟩ | ⟨answer, queue, hgot, hnone, hlook⟩ := look_cases c now worker
  · rw [hlook]
    exact .handOut now worker k queue hgot
  · rw [hlook]
    exact .lookInVain now answer queue hgot hnone

/-- The first worker has key 1, which was added again; the second one was handed the delayed key 2 in its
second look. -/
def overlapping : Crew Nat Nat :=
  let idle : Crew Nat Nat := new .standard
  let started := ({ idle with queue := (idle.queue.add 1).1 } : Crew Nat Nat).look 0 1
  let marked := { started with queue := (started.queue.add 1).1 }
  (({ marked with queue := (marked.queue.addAfter 0 2 5).1 } : Crew Nat Nat).look 3 2).look 7 2

/-- The first worker is done and the queue is closed, with key 1 left to hand out. -/
def closing : Crew Nat Nat :=
  let finished : Crew Nat Nat := ⟨(overlapping.queue.done 1).1, overlapping.held.erase (1, 1)⟩
  { finished with queue := finished.queue.shutDown.1 }

lemma closing_reachable : Reachable .standard closing := by
  have hnew : Reachable .standard (new .standard : Crew Nat Nat) := Relation.ReflTransGen.refl
  have hstarted := (hnew.tail (.add 1)).tail (look_step _ 0 1)
  have hmarked := (hstarted.tail (.add 1)).tail (.addAfter 0 2 5)
  have hoverlapping : Reachable .standard overlapping :=
    (hmarked.tail (look_step _ 3 2)).tail (look_step _ 7 2)
  exact (hoverlapping.tail (.done 1 1 (by decide +kernel))).tail .shutDown

/-- A key that was added while it was worked on is queued once, also when the queue closes. -/
theorem reachable_exclusive_closing :
    Reachable .standard closing ∧ closing.queue.queue = [1] ∧ closing.held = [(2, 2)] ∧
    closing.queue.queue.Nodup ∧
    (∀ k, ¬(k ∈ closing.queue.queue ∧ k ∈ closing.queue.processing)) ∧
    (∀ k, k ∈ closing.queue.queue ↔ k ∈ closing.queue.dirty ∧ k ∉ closing.queue.processing) ∧
    (∀ k, k ∈ closing.queue.processing ↔ ∃ worker, (worker, k) ∈ closing.held) ∧
    (∀ now k queue, closing.queue.get now = (.key k, queue) → ∀ worker, (worker, k) ∉ closing.held) := by
  have hqueue : closing.queue.queue = [1] := by decide +kernel
  have hheld : closing.held = [(2, 2)] := by decide +kernel
  exact ⟨closing_reachable, hqueue, hheld, reachable_exclusive closing_reachable⟩

end Crew

end Timetable
