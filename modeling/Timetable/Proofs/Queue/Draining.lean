import Mathlib.Data.Fintype.Card
import Timetable.Proofs.Queue.History
import Timetable.Queue.Waiting

/-!
# Draining a closed queue

A shift is a logbook whose looks are those of some workers: each takes a key, ends its work and looks again
until it is told that there will be no more keys, and then it is gone. Others wait until the closed queue is
drained. The main result is that the workers finish: what was dirty when the queue was closed is handed out
once, nothing else is, and when all workers are gone nothing is left.
-/

namespace Timetable

open WorkQueue

namespace WorkQueue
variable {κ : Type} [DecidableEq κ] {q : WorkQueue κ}

/-! ## Closed queues -/

section
variable (hc : q.closed = true) (hw : q.waiting = [])
include hc hw

/-- A call changes nothing in a closed queue but the failures. -/
lemma call_of_closed (now : Nat) (a : Call κ) : ∃ failures, (q.call now a).1 = { q with failures } := by
  have hdelay : ∀ k delay, (q.addAfter now k delay).1 = q := by
    intro k delay
    simp [addAfter, add_of_closed hc, hc]
  cases a with
  | add k => exact ⟨q.failures, by rw [call, add_of_closed hc]⟩
  | addAfter k delay => exact ⟨q.failures, hdelay k delay⟩
  | addRateLimited k =>
    refine ⟨(q.failures.record k).2, ?_⟩
    simp [call, addRateLimited, addAfter, add, hc]
  | forget k => exact ⟨_, rfl⟩
  | shutDown =>
    refine ⟨q.failures, ?_⟩
    cases q
    simp_all [call, shutDown]

omit hc in
lemma promote_of_not_waiting (now : Nat) : q.promote now = q :=
  promote_of_none_due (by simp [hw])

/-- Whoever looks gets an answer. -/
lemma get_of_closed (now : Nat) : (q.get now).1 ≠ .empty := by
  have hp := promote_of_not_waiting hw now
  cases hq : q.queue with
  | cons k rest =>
    rw [get_of_queue hq]
    simp
  | nil =>
    rw [get_of_promote_nil (hp.symm ▸ hq)]
    simp [hc]

end

lemma length_without {keys : List κ} {k : κ} (h : k ∈ keys) : (without keys k).length < keys.length :=
  List.length_filter_lt_length_iff_exists.2 ⟨k, h, by simp⟩

end WorkQueue

/-- A worker moves when it looks and when it ends its work. -/
def WorkQueue.Deed.isMove {κ : Type} : Deed κ → Bool
  | .looked _ => true
  | .finished _ => true
  | _ => false

lemma WorkQueue.countP_callDeeds {κ : Type} [DecidableEq κ] (q : WorkQueue κ) (now : Nat) (a : Call κ) :
    (q.callDeeds now a).countP Deed.isMove = 0 := by
  have hdelay : ∀ j delay, (Deed.ofDelay now j delay : Deed κ).isMove = false := by
    intro j delay
    unfold Deed.ofDelay
    split_ifs <;> rfl
  cases a with
  | addAfter k delay => simp only [callDeeds, List.countP_singleton, hdelay, Bool.false_eq_true, if_false]
  | addRateLimited k => simp only [callDeeds, List.countP_singleton, hdelay, Bool.false_eq_true, if_false]
  | _ => rfl

/-- Who returned had returned before, or it found the queue drained. -/
lemma Drain.returned_of_check {κ : Type} {q : WorkQueue κ} {d : Drain}
    (h : d.wake.check q = .returned) : d = .returned ∨ q.isDrained = true := by
  cases d with
  | returned => exact Or.inl rfl
  | called => exact Or.inr (by by_contra hq; simp [wake, check, hq] at h)
  | asleep => exact Or.inr (by by_contra hq; simp [wake, check, hq] at h)

/-! ## Shifts -/

/-- A logbook of workers, with those that stopped and the tasks that wait for the drained queue. -/
structure Shift (κ ι : Type) extends Logbook κ ι where
  gone : Finset ι
  drains : List Drain

namespace Shift
variable {κ ι : Type} [DecidableEq κ] [DecidableEq ι] {s s' : Shift κ ι}

def new (policy : BackoffPolicy) : Shift κ ι :=
  ⟨.new policy, ∅, []⟩

def call (s : Shift κ ι) (now : Nat) (a : Call κ) : Shift κ ι :=
  { s with toLogbook := s.toLogbook.call now a }

/-- A worker looks; if there will be no more keys it is gone. -/
def look (s : Shift κ ι) (now : Nat) (worker : ι) : Shift κ ι where
  toLogbook := s.toLogbook.look now worker
  gone := if (s.queue.get now).1 = .closed then insert worker s.gone else s.gone
  drains := s.drains

def done (s : Shift κ ι) (worker : ι) (k : κ) : Shift κ ι :=
  { s with toLogbook := s.toLogbook.done worker k }

/-- A worker that has not gone looks for a key when it holds none, and is done with the key that it holds. All
else may happen at any time, and a task that waits for the drained queue may look at any time. -/
inductive Step (s : Shift κ ι) : Shift κ ι → Prop
  | call (now : Nat) (a : Call κ) : Step s (s.call now a)
  | look (now : Nat) (worker : ι) (here : worker ∉ s.gone) (free : ∀ k, (worker, k) ∉ s.held) :
      Step s (s.look now worker)
  | done (worker : ι) (k : κ) (held : (worker, k) ∈ s.held) : Step s (s.done worker k)
  | drain (now : Nat) : Step s { s.call now .shutDown with drains := s.drains ++ [.called] }
  | check (i : Nat) (d : Drain) (waits : s.drains[i]? = some d) :
      Step s { s with drains := s.drains.set i (d.wake.check s.queue) }

abbrev Runs : Shift κ ι → Shift κ ι → Prop :=
  Relation.ReflTransGen Step

def Reachable (policy : BackoffPolicy) : Shift κ ι → Prop :=
  Runs (new policy)

/-- What a look makes of the shift: a worker that is handed a key holds it, and one that finds a closed queue
empty is gone. -/
lemma look_cases (s : Shift κ ι) (now : Nat) (worker : ι) :
    (∃ k rest, (s.queue.promote now).queue = k :: rest ∧
      (s.look now worker).queue.queue = rest ∧
      (s.look now worker).queue.dirty = without (s.queue.promote now).dirty k ∧
      (s.look now worker).queue.closed = s.queue.closed ∧
      (s.look now worker).held = (worker, k) :: s.held ∧ (s.look now worker).gone = s.gone ∧
      (s.look now worker).past = .handedOut k :: .looked now :: s.past) ∨
    ((s.queue.promote now).queue = [] ∧ (s.look now worker).queue = s.queue.promote now ∧
      (s.look now worker).held = s.held ∧
      (s.look now worker).gone = (if s.queue.closed then insert worker s.gone else s.gone) ∧
      (s.look now worker).past = .looked now :: s.past) := by
  cases hq : (s.queue.promote now).queue with
  | cons k rest =>
    have hget := get_of_promote_cons hq
    refine Or.inl ⟨k, rest, rfl, ?_⟩
    simp [look, Logbook.look, Crew.look, lookDeeds, hget, promote_closed]
  | nil =>
    have hget := get_of_promote_nil hq
    refine Or.inr ⟨rfl, ?_⟩
    cases hc : s.queue.closed <;> simp [look, Logbook.look, Crew.look, lookDeeds, hget, hc]

/-! ## What every reachable shift keeps -/

/-- Workers leave only a closed queue, without a key, and not all of them while a key is queued; a task that
waited for the drained queue returned only when it was, and it is from then on. -/
structure Staffed (s : Shift κ ι) : Prop where
  truthful : s.toLogbook.Truthful
  closed_of_gone : s.gone.Nonempty → s.queue.closed = true
  free_of_gone : ∀ worker ∈ s.gone, ∀ k, (worker, k) ∉ s.held
  staffed : s.gone.Nonempty → s.queue.queue ≠ [] → ∃ worker, worker ∉ s.gone
  closed_of_drains : s.drains ≠ [] → s.queue.closed = true
  drained : .returned ∈ s.drains → s.queue.queue = [] ∧ s.queue.processing = []

omit [DecidableEq ι] in
lemma Staffed.waiting_of_closed (h : Staffed s) (hc : s.queue.closed = true) : s.queue.waiting = [] :=
  h.truthful.tracks.waiting_of_closed hc

lemma Staffed.call (h : Staffed s) (now : Nat) (a : Call κ) : Staffed (s.call now a) := by
  have htruthful := h.truthful.step (.call now a)
  have hsame : s.queue.closed = true → ∃ failures, (s.call now a).queue = { s.queue with failures } :=
    fun hc => call_of_closed hc (h.waiting_of_closed hc) now a
  have hclosed : s.queue.closed = true → (s.call now a).queue.closed = true := by
    intro hc
    obtain ⟨failures, hq⟩ := hsame hc
    rw [hq]
    exact hc
  refine ⟨htruthful, fun hg => hclosed (h.closed_of_gone hg), h.free_of_gone, fun hg hne => ?_,
    fun hd => hclosed (h.closed_of_drains hd), fun hr => ?_⟩
  · obtain ⟨failures, hq⟩ := hsame (h.closed_of_gone hg)
    rw [hq] at hne
    exact h.staffed hg hne
  · obtain ⟨failures, hq⟩ := hsame (h.closed_of_drains (List.ne_nil_of_mem hr))
    rw [hq]
    exact h.drained hr

lemma Staffed.look (h : Staffed s) (now : Nat) {worker : ι} (here : worker ∉ s.gone)
    (free : ∀ k, (worker, k) ∉ s.held) : Staffed (s.look now worker) := by
  have htruthful := h.truthful.step (.look now worker)
  have hsame : s.queue.closed = true → s.queue.promote now = s.queue :=
    fun hc => promote_of_not_waiting (h.waiting_of_closed hc) now
  obtain ⟨k, rest, hq, hqueue, -, hclosed, hheld, hgone, -⟩ | ⟨hq, hqueue, hheld, hgone, -⟩ :=
    look_cases s now worker
  · -- somebody who has gone had found the queue empty, so a worker is left for the rest
    refine ⟨htruthful, fun hg => ?_, fun w hw j hj => ?_, fun hg hne => ?_, fun hd => ?_, fun hr => ?_⟩
    · rw [hclosed]
      exact h.closed_of_gone (hgone ▸ hg)
    · rw [hgone] at hw
      rw [hheld] at hj
      obtain hj | hj := List.mem_cons.1 hj
      · exact here ((Prod.mk.inj hj).1 ▸ hw)
      · exact h.free_of_gone w hw j hj
    · exact ⟨worker, hgone.symm ▸ here⟩
    · rw [hclosed]
      exact h.closed_of_drains hd
    · have hempty := (h.drained hr).1
      rw [hsame (h.closed_of_drains (List.ne_nil_of_mem hr)), hempty] at hq
      exact absurd hq (by simp)
  · refine ⟨htruthful, fun hg => ?_, fun w hw j hj => ?_, fun hg hne => ?_, fun hd => ?_, fun hr => ?_⟩
    · rw [hqueue, promote_closed]
      by_contra hc
      rw [hgone, if_neg hc] at hg
      exact hc (h.closed_of_gone hg)
    · rw [hheld] at hj
      rw [hgone] at hw
      split_ifs at hw
      · obtain rfl | hw := Finset.mem_insert.1 hw
        · exact free j hj
        · exact h.free_of_gone w hw j hj
      · exact h.free_of_gone w hw j hj
    · rw [hqueue] at hne
      exact absurd hq hne
    · rw [hqueue, promote_closed]
      exact h.closed_of_drains hd
    · rw [hqueue, promote_processing]
      exact ⟨hq, (h.drained hr).2⟩

lemma Staffed.done (h : Staffed s) {worker : ι} {k : κ} (held : (worker, k) ∈ s.held) :
    Staffed (s.done worker k) := by
  have hclosed : (s.done worker k).queue.closed = s.queue.closed := done_closed s.queue k
  have hprocessing : k ∈ s.queue.processing :=
    (h.truthful.orderly.held_iff k).2 (List.mem_map.2 ⟨_, held, rfl⟩)
  refine ⟨h.truthful.step (.done worker k held), fun hg => hclosed.trans (h.closed_of_gone hg),
    fun w hw j hj => h.free_of_gone w hw j (List.mem_of_mem_erase hj),
    fun hg hne => ⟨worker, fun hw => h.free_of_gone worker hw k held⟩,
    fun hd => hclosed.trans (h.closed_of_drains hd), fun hr => ?_⟩
  rw [(h.drained hr).2] at hprocessing
  exact absurd hprocessing List.not_mem_nil

lemma Staffed.drain (h : Staffed s) (now : Nat) :
    Staffed { s.call now .shutDown with drains := s.drains ++ [.called] } := by
  have hc := h.call now .shutDown
  refine ⟨hc.truthful, hc.closed_of_gone, hc.free_of_gone, hc.staffed, fun _ => rfl, fun hr => ?_⟩
  obtain hr | hr := List.mem_append.1 hr
  · exact hc.drained hr
  · exact absurd hr (by simp)

omit [DecidableEq ι] in
lemma Staffed.check (h : Staffed s) {i : Nat} {d : Drain} (waits : s.drains[i]? = some d) :
    Staffed { s with drains := s.drains.set i (d.wake.check s.queue) } := by
  have hmem := List.mem_of_getElem? waits
  refine ⟨h.truthful, h.closed_of_gone, h.free_of_gone, h.staffed,
    fun _ => h.closed_of_drains (List.ne_nil_of_mem hmem), fun hr => ?_⟩
  obtain hr | hr := List.mem_or_eq_of_mem_set hr
  · exact h.drained hr
  · obtain rfl | hdrained := Drain.returned_of_check hr.symm
    · exact h.drained hmem
    · simpa [isDrained] using hdrained

theorem Staffed.step (h : Staffed s) (hs : Step s s') : Staffed s' := by
  cases hs with
  | call now a => exact h.call now a
  | look now worker here free => exact h.look now here free
  | done worker k held => exact h.done held
  | drain now => exact h.drain now
  | check i d waits => exact h.check waits

lemma Staffed.runs (h : Staffed s) (hr : Runs s s') : Staffed s' := by
  induction hr with
  | refl => exact h
  | tail _ hs ih => exact ih.step hs

lemma Staffed.of_reachable {policy : BackoffPolicy} (h : Reachable policy s) : Staffed s := by
  have hnew : Staffed (new policy : Shift κ ι) :=
    ⟨Logbook.Truthful.of_reachable (show Logbook.Reachable policy (Logbook.new policy) from .refl),
      by simp [new], by simp [new], by simp [new], by simp [new], by simp [new]⟩
  exact hnew.runs h

/-! ## The end of a shift -/

/-- The moves that are left at most once the queue is closed: two for each dirty key, one for each key that is
held, and the last look of each worker. -/
def movesLeft [Fintype ι] (s : Shift κ ι) : Nat :=
  2 * s.queue.dirty.length + s.held.length + s.goneᶜ.card

section
variable [Fintype ι]

/-- Every move of a worker brings the end of the shift nearer. -/
lemma movesLeft_step (h : Staffed s) (hc : s.queue.closed = true) (hs : Step s s') :
    ∃ recent, s'.past = recent ++ s.past ∧ s'.queue.closed = true ∧
      recent.countP Deed.isMove + s'.movesLeft ≤ s.movesLeft := by
  have hwaiting := h.waiting_of_closed hc
  cases hs with
  | call now a =>
    obtain ⟨failures, hq⟩ : ∃ failures, (s.call now a).queue = { s.queue with failures } :=
      call_of_closed hc hwaiting now a
    refine ⟨s.queue.callDeeds now a, rfl, hq ▸ hc, ?_⟩
    rw [countP_callDeeds, movesLeft, hq]
    exact (Nat.zero_add _).le
  | look now worker here free =>
    have hpromote : s.queue.promote now = s.queue := promote_of_not_waiting hwaiting now
    obtain ⟨k, rest, hq, -, hdirty, hclosed, hheld, hgone, hpast⟩ | ⟨-, hqueue, hheld, hgone, hpast⟩ :=
      look_cases s now worker
    · -- the key is not dirty any more, and its end is the second of its two moves
      refine ⟨[.handedOut k, .looked now], hpast, hclosed.trans hc, ?_⟩
      rw [hpromote] at hq hdirty
      have hk : k ∈ s.queue.dirty :=
        ((h.truthful.orderly.exclusive.queued_iff k).1 (hq ▸ List.mem_cons_self)).1
      have hfewer := length_without hk
      simp only [movesLeft, hdirty, hheld, hgone, List.length_cons, List.countP_cons, List.countP_nil,
        Deed.isMove]
      simp only [Bool.false_eq_true, if_false, if_true]
      omega
    · refine ⟨[.looked now], hpast, by rw [hqueue, promote_closed, hc], ?_⟩
      have hfewer : (insert worker s.gone)ᶜ.card < s.goneᶜ.card := by
        refine Finset.card_lt_card (Finset.compl_ssubset_compl.2 (Finset.ssubset_insert here))
      rw [if_pos hc] at hgone
      simp only [movesLeft, hqueue, hpromote, hheld, hgone, List.countP_cons, List.countP_nil, Deed.isMove]
      simp only [if_true]
      omega
  | done worker k held =>
    refine ⟨[.finished k], rfl, (done_closed s.queue k).trans hc, ?_⟩
    have hdirty : (s.done worker k).queue.dirty = s.queue.dirty := done_dirty s.queue k
    have hheld : (s.done worker k).held.length = s.held.length - 1 := List.length_erase_of_mem held
    have hpos : 0 < s.held.length := List.length_pos_of_mem held
    have hgone : (s.done worker k).gone = s.gone := rfl
    simp only [movesLeft, hdirty, hheld, hgone, List.countP_cons, List.countP_nil, Deed.isMove]
    simp only [if_true]
    omega
  | drain now => exact ⟨[.closed], rfl, rfl, by simp [movesLeft, call, Logbook.call, WorkQueue.call,
      WorkQueue.shutDown, Deed.isMove]⟩
  | check i d waits => exact ⟨[], rfl, hc, by simp [movesLeft]⟩

theorem movesLeft_runs (h : Staffed s) (hc : s.queue.closed = true) (hr : Runs s s') :
    ∃ recent, s'.past = recent ++ s.past ∧ s'.queue.closed = true ∧
      recent.countP Deed.isMove + s'.movesLeft ≤ s.movesLeft := by
  induction hr with
  | refl => exact ⟨[], rfl, hc, by simp⟩
  | tail hr hs ih =>
    obtain ⟨recent, hpast, hclosed, hmoves⟩ := ih
    obtain ⟨latest, hpast', hclosed', hmoves'⟩ := movesLeft_step (h.runs hr) hclosed hs
    refine ⟨latest ++ recent, by rw [hpast', hpast, List.append_assoc], hclosed', ?_⟩
    rw [List.countP_append]
    omega

omit [DecidableEq ι] in
/-- What is left when every worker has gone. -/
lemma Staffed.nothing_left [Nonempty ι] (h : Staffed s) (hgone : s.gone = Finset.univ) :
    s.queue.queue = [] ∧ s.queue.dirty = [] ∧ s.queue.processing = [] ∧ s.queue.waiting = [] := by
  have hne : s.gone.Nonempty := hgone ▸ Finset.univ_nonempty
  have hqueue : s.queue.queue = [] := by
    by_contra hq
    obtain ⟨worker, hw⟩ := h.staffed hne hq
    exact hw (hgone ▸ Finset.mem_univ worker)
  have hheld : s.held = [] := List.eq_nil_iff_forall_not_mem.2 fun e he =>
    h.free_of_gone e.1 (hgone ▸ Finset.mem_univ _) e.2 he
  have hprocessing : s.queue.processing = [] := List.eq_nil_iff_forall_not_mem.2 fun k hk => by
    have hk' := (h.truthful.orderly.held_iff k).1 hk
    simp [hheld] at hk'
  have hdirty : s.queue.dirty = [] := List.eq_nil_iff_forall_not_mem.2 fun k hk => by
    have hk' := (h.truthful.orderly.exclusive.queued_iff k).2 ⟨hk, by simp [hprocessing]⟩
    simp [hqueue] at hk'
  exact ⟨hqueue, hdirty, hprocessing, h.waiting_of_closed (h.closed_of_gone hne)⟩

/-- What comes of a shift after its queue was closed. -/
structure Drains (s s' : Shift κ ι) (recent : List (Deed κ)) : Prop where
  /-- No further key is accepted. -/
  shut : ∀ now a, ∃ failures, (s'.queue.call now a).1 = { s'.queue with failures }
  /-- A key that was dirty is handed out once, unless it is dirty still; no other key is handed out. -/
  once : ∀ k, (handOuts recent).count k + (if k ∈ s'.queue.dirty then 1 else 0) =
    if k ∈ s.queue.dirty then 1 else 0
  /-- No worker waits for a key. -/
  answers : ∀ now, (s'.queue.get now).1 ≠ .empty
  /-- The workers come to an end. -/
  ends : recent.countP Deed.isMove ≤ s.movesLeft
  /-- When the last of them is gone, every dirty key was handed out and nothing is left. -/
  finished : s'.gone = Finset.univ →
    (∀ k, (handOuts recent).count k = if k ∈ s.queue.dirty then 1 else 0) ∧
    s'.queue.queue = [] ∧ s'.queue.dirty = [] ∧ s'.queue.processing = [] ∧ s'.queue.waiting = []
  /-- A task that waited for the drained queue returns only when no key is queued or in work. -/
  drained : .returned ∈ s'.drains → s'.queue.queue = [] ∧ s'.queue.processing = []

/-- Whatever the workers and all others do, a queue that is closed is drained. -/
theorem closed_drains [Nonempty ι] {policy : BackoffPolicy} (h : Reachable policy s) (now : Nat)
    (hr : Runs (s.call now .shutDown) s') {recent : List (Deed κ)}
    (hpast : s'.past = recent ++ .closed :: s.past) : Drains s s' recent := by
  have hshut : Staffed (s.call now .shutDown) := (Staffed.of_reachable h).call now .shutDown
  have hend : Staffed s' := hshut.runs hr
  obtain ⟨recent', hpast', hclosed, hmoves⟩ := movesLeft_runs hshut rfl hr
  obtain rfl : recent = recent' := List.append_cancel_right (hpast ▸ hpast')
  have hwaiting := hend.waiting_of_closed hclosed
  have honce : ∀ k, (handOuts recent).count k + (if k ∈ s'.queue.dirty then 1 else 0) =
      if k ∈ s.queue.dirty then 1 else 0 := by
    intro k
    classical
    have hquiet : ¬AcceptedIn (.closed :: s.past) recent k := by
      rintro ⟨later, d, earlier, -, ha⟩
      exact not_accepts_of_closed (List.mem_append_right _ List.mem_cons_self) d ha
    have hbefore : k ∈ s.queue.dirty ↔ Owed (.closed :: s.past) k := hshut.truthful.tracks.dirty_iff k
    have hafter : k ∈ s'.queue.dirty ↔ Owed (recent ++ .closed :: s.past) k :=
      hpast ▸ hend.truthful.tracks.dirty_iff k
    rw [if_congr hbefore rfl rfl, if_congr hafter rfl rfl]
    exact count_handOuts (hpast ▸ hend.truthful.answered) hquiet
  refine ⟨call_of_closed hclosed hwaiting, honce, get_of_closed hclosed hwaiting, ?_, fun hgone => ?_,
    hend.drained⟩
  · exact (Nat.le_add_right _ _).trans hmoves
  · obtain ⟨hqueue, hdirty, hprocessing, -⟩ := hend.nothing_left hgone
    refine ⟨fun k => ?_, hqueue, hdirty, hprocessing, hwaiting⟩
    have hk := honce k
    rwa [if_neg (hdirty ▸ List.not_mem_nil), Nat.add_zero] at hk

end

/-- The first worker has key 1, which was added again; key 2 is queued and key 3 is delayed. -/
def crowded : Shift Nat Bool :=
  let started := ((new .standard).call 0 (.add 1)).look 0 false
  ((started.call 1 (.add 1)).call 2 (.add 2)).call 3 (.addAfter 3 5)

/-- The queue is closed, and a task waits until it is drained. The second worker takes key 2 and is gone before
the first one is done with key 1 and gets it again. -/
def emptied : Shift Nat Bool :=
  let closing := crowded.call 4 .shutDown
  let awaited : Shift Nat Bool := { closing.call 4 .shutDown with drains := closing.drains ++ [.called] }
  let second := ((awaited.look 5 true).done true 2).look 6 true
  let first := (((second.done false 1).look 7 false).done false 1).look 8 false
  { first with drains := first.drains.set 0 (Drain.called.wake.check first.queue) }

omit [DecidableEq κ] [DecidableEq ι] in
lemma free_of_notMem {worker : ι} (h : worker ∉ s.held.map Prod.fst) (k : κ) : (worker, k) ∉ s.held :=
  fun hk => h (List.mem_map.2 ⟨_, hk, rfl⟩)

lemma crowded_reachable : Reachable .standard crowded :=
  Relation.ReflTransGen.refl |>.tail (.call 0 (.add 1))
    |>.tail (.look 0 false (by decide +kernel) (free_of_notMem (by decide +kernel)))
    |>.tail (.call 1 (.add 1)) |>.tail (.call 2 (.add 2)) |>.tail (.call 3 (.addAfter 3 5))

lemma emptied_runs : Runs (crowded.call 4 .shutDown) emptied :=
  Relation.ReflTransGen.refl |>.tail (.drain 4)
    |>.tail (.look 5 true (by decide +kernel) (free_of_notMem (by decide +kernel)))
    |>.tail (.done true 2 (by decide +kernel))
    |>.tail (.look 6 true (by decide +kernel) (free_of_notMem (by decide +kernel)))
    |>.tail (.done false 1 (by decide +kernel))
    |>.tail (.look 7 false (by decide +kernel) (free_of_notMem (by decide +kernel)))
    |>.tail (.done false 1 (by decide +kernel))
    |>.tail (.look 8 false (by decide +kernel) (free_of_notMem (by decide +kernel)))
    |>.tail (.check 0 .called (by decide +kernel))

/-- Both keys are handed out, and the delayed key 3 is not. -/
theorem closed_drains_emptied :
    Reachable .standard crowded ∧ Runs (crowded.call 4 .shutDown) emptied ∧ emptied.gone = Finset.univ ∧
    emptied.drains = [.returned] ∧ handOuts emptied.past = [1, 2, 1] ∧
    Drains crowded emptied [.looked 8, .finished 1, .handedOut 1, .looked 7, .finished 1, .looked 6,
      .finished 2, .handedOut 2, .looked 5, .closed] :=
  ⟨crowded_reachable, emptied_runs, by decide +kernel, by decide +kernel, by decide +kernel,
    closed_drains crowded_reachable 4 emptied_runs (by decide +kernel)⟩

end Shift

end Timetable
