import Timetable.Proofs.Queue.Operations

/-!
# What the past of a queue says about it

A logbook is a crew with everything that was done so far, latest first. From these deeds alone it can be told
which keys are owed a hand-out, which are worked on and which wait for a deadline. The main result is that a
queue knows exactly that: a key is dirty as long as an add was accepted after its last hand-out, every hand-out
answers such an add, and keys are handed out in the order in which they were queued.
-/

namespace Timetable

namespace WorkQueue
variable {κ : Type} [DecidableEq κ] {q : WorkQueue κ} {j k : κ}

/-- What was done with a queue: adds without a delay and with one, looks, hand-outs, and the end of the work
on a key. -/
inductive Deed (κ : Type)
  | added (k : κ)
  | delayed (k : κ) (deadline : Nat)
  | looked (now : Nat)
  | handedOut (k : κ)
  | finished (k : κ)
  | closed
  deriving DecidableEq

/-- The earliest deadline up to which a key waits. Nothing waits in a closed queue, and a look at or after the
deadline ends the wait. -/
def deadline? (k : κ) : List (Deed κ) → Option Nat
  | [] => none
  | .delayed j d :: past =>
    if j = k ∧ .closed ∉ past then some (min d ((deadline? k past).getD d)) else deadline? k past
  | .looked now :: past => (deadline? k past).filter (now < ·)
  | .closed :: _ => none
  | _ :: past => deadline? k past

/-- A deed that accepts an add of a key: an add without delay while the queue is open, or a look that finds
the deadline of the key come. -/
def Accepts (past : List (Deed κ)) (k : κ) : Deed κ → Prop
  | .added j => j = k ∧ .closed ∉ past
  | .looked now => ∃ d, deadline? k past = some d ∧ d ≤ now
  | _ => False

/-- Something began and did not end since. -/
def Since (begins : List (Deed κ) → Deed κ → Prop) (ends : Deed κ) (past : List (Deed κ)) : Prop :=
  ∃ later d earlier, past = later ++ d :: earlier ∧ begins earlier d ∧ ends ∉ later

/-- An add of the key was accepted after the key was last handed out. -/
def Owed (past : List (Deed κ)) (k : κ) : Prop :=
  Since (fun earlier d => Accepts earlier k d) (.handedOut k) past

/-- The key was handed out and its work has not ended. -/
def Busy (past : List (Deed κ)) (k : κ) : Prop :=
  Since (fun _ d => d = .handedOut k) (.finished k) past

/-- An add of the key was accepted by one of the recent deeds. -/
def AcceptedIn (past recent : List (Deed κ)) (k : κ) : Prop :=
  ∃ later d earlier, recent = later ++ d :: earlier ∧ Accepts (earlier ++ past) k d

/-- Every hand-out answers an add accepted since the one before, whose work has ended. -/
def Answered (past : List (Deed κ)) : Prop :=
  ∀ k later earlier, past = later ++ .handedOut k :: earlier → Owed earlier k ∧ ¬Busy earlier k

def Deed.handed? : Deed κ → Option κ
  | .handedOut k => some k
  | _ => none

/-- The keys handed out, in order. -/
def handOuts (past : List (Deed κ)) : List κ :=
  past.reverse.filterMap Deed.handed?

/-! ## Pasts -/

section
omit [DecidableEq κ]

lemma since_cons {begins : List (Deed κ) → Deed κ → Prop} {ends d : Deed κ} {past : List (Deed κ)} :
    Since begins ends (d :: past) ↔ begins past d ∨ (d ≠ ends ∧ Since begins ends past) := by
  constructor
  · rintro ⟨later, e, earlier, hpast, hbegins, hends⟩
    cases later with
    | nil =>
      obtain ⟨rfl, rfl⟩ := List.cons.inj hpast
      exact Or.inl hbegins
    | cons c later =>
      obtain ⟨rfl, rfl⟩ := List.cons.inj hpast
      obtain ⟨hne, hnot⟩ := not_or.1 fun h => hends (List.mem_cons.2 h)
      exact Or.inr ⟨Ne.symm hne, later, e, earlier, rfl, hbegins, hnot⟩
  · rintro (hbegins | ⟨hne, later, e, earlier, rfl, hbegins, hends⟩)
    · exact ⟨[], d, past, rfl, hbegins, List.not_mem_nil⟩
    · refine ⟨d :: later, e, earlier, rfl, hbegins, fun hmem => ?_⟩
      obtain rfl | hlater := List.mem_cons.1 hmem
      · exact hne rfl
      · exact hends hlater

lemma not_since_nil {begins : List (Deed κ) → Deed κ → Prop} {ends : Deed κ} :
    ¬Since begins ends [] := by
  rintro ⟨later, d, earlier, hpast, -, -⟩
  simp at hpast

lemma handOuts_append (recent past : List (Deed κ)) :
    handOuts (recent ++ past) = handOuts past ++ handOuts recent := by
  simp [handOuts]

lemma handOuts_cons (d : Deed κ) (past : List (Deed κ)) :
    handOuts (d :: past) = handOuts past ++ d.handed?.toList := by
  cases d <;> simp [handOuts, Deed.handed?]

end

lemma owed_cons {past : List (Deed κ)} {d : Deed κ} :
    Owed (d :: past) k ↔ Accepts past k d ∨ (d ≠ .handedOut k ∧ Owed past k) :=
  since_cons

omit [DecidableEq κ] in
lemma busy_cons {past : List (Deed κ)} {d : Deed κ} :
    Busy (d :: past) k ↔ d = .handedOut k ∨ (d ≠ .finished k ∧ Busy past k) :=
  since_cons

lemma Answered.nil : Answered ([] : List (Deed κ)) := by
  intro k later earlier hpast
  simp at hpast

lemma Answered.cons {past : List (Deed κ)} {d : Deed κ} (h : Answered past)
    (hd : ∀ k, d = .handedOut k → Owed past k ∧ ¬Busy past k) : Answered (d :: past) := by
  intro k later earlier hpast
  cases later with
  | nil =>
    obtain ⟨rfl, rfl⟩ := List.cons.inj hpast
    exact hd k rfl
  | cons c later =>
    obtain ⟨rfl, rfl⟩ := List.cons.inj hpast
    exact h k later earlier rfl

lemma Answered.append {recent past : List (Deed κ)} (h : Answered past)
    (hd : ∀ d ∈ recent, d.handed? = none) : Answered (recent ++ past) := by
  induction recent with
  | nil => exact h
  | cons d recent ih =>
    refine Answered.cons (ih fun e he => hd e (List.mem_cons_of_mem _ he)) fun k hk => ?_
    have hnone := hd d List.mem_cons_self
    simp [hk, Deed.handed?] at hnone

lemma Answered.of_append (recent : List (Deed κ)) {past : List (Deed κ)}
    (h : Answered (recent ++ past)) : Answered past := by
  intro k later earlier hpast
  exact h k (recent ++ later) earlier (by rw [hpast, List.append_assoc])

open Classical in
/-- As long as no add of a key is accepted, it is handed out once if it is owed and not at all if not. -/
theorem count_handOuts {recent past : List (Deed κ)} (h : Answered (recent ++ past))
    (hquiet : ¬AcceptedIn past recent k) :
    (handOuts recent).count k + (if Owed (recent ++ past) k then 1 else 0) =
      if Owed past k then 1 else 0 := by
  induction recent with
  | nil =>
    rw [List.nil_append]
    exact Nat.zero_add _
  | cons d recent ih =>
    have hquiet' : ¬AcceptedIn past recent k := by
      rintro ⟨later, e, earlier, rfl, ha⟩
      exact hquiet ⟨d :: later, e, earlier, rfl, ha⟩
    have hd : ¬Accepts (recent ++ past) k d := fun ha => hquiet ⟨[], d, recent, rfl, ha⟩
    have hrest := ih (Answered.of_append [d] h) hquiet'
    have howed : Owed (d :: recent ++ past) k ↔ d ≠ .handedOut k ∧ Owed (recent ++ past) k := by
      rw [List.cons_append, owed_cons, or_iff_right hd]
    rw [handOuts_cons, List.count_append]
    by_cases hk : d = .handedOut k
    · -- the key was owed before, and it is not any more
      subst hk
      have hbefore := (h k [] (recent ++ past) rfl).1
      rw [if_pos hbefore] at hrest
      rw [if_neg fun ho => (howed.1 ho).1 rfl]
      simpa [Deed.handed?] using hrest
    · have hother : k ∉ d.handed?.toList := by
        cases d with
        | handedOut j => simpa [Deed.handed?, eq_comm] using hk
        | _ => simp [Deed.handed?]
      rw [List.count_eq_zero_of_not_mem hother, Nat.add_zero, ← hrest]
      simp only [howed, ne_eq, hk, not_false_eq_true, true_and]

lemma deadline?_of_closed {past : List (Deed κ)} (h : .closed ∈ past) : deadline? k past = none := by
  induction past with
  | nil => exact absurd h List.not_mem_nil
  | cons d past ih =>
    obtain rfl | hpast := List.mem_cons.1 h
    · rfl
    · cases d <;> simp [deadline?, ih hpast, hpast]

/-- Nothing is accepted after the queue was closed. -/
lemma not_accepts_of_closed {past : List (Deed κ)} (h : .closed ∈ past) (d : Deed κ) :
    ¬Accepts past k d := by
  cases d <;> simp [Accepts, h, deadline?_of_closed h]

/-! ## The queue and its past -/

/-- The queue holds what its past says. -/
structure Tracks (q : WorkQueue κ) (past : List (Deed κ)) : Prop where
  closed_iff : q.closed = true ↔ .closed ∈ past
  keys_nodup : (q.waiting.map Prod.fst).Nodup
  lookup_eq : ∀ k, q.waiting.lookup k = deadline? k past
  dirty_iff : ∀ k, k ∈ q.dirty ↔ Owed past k
  processing_iff : ∀ k, k ∈ q.processing ↔ Busy past k

lemma Tracks.new (policy : BackoffPolicy) : Tracks (WorkQueue.new policy : WorkQueue κ) [] where
  closed_iff := by simp [WorkQueue.new]
  keys_nodup := List.nodup_nil
  lookup_eq k := by simp [WorkQueue.new, deadline?]
  dirty_iff k := iff_of_false List.not_mem_nil not_since_nil
  processing_iff k := iff_of_false List.not_mem_nil not_since_nil

section
variable {past : List (Deed κ)} (h : Tracks q past)
include h

lemma Tracks.waiting_of_closed (hc : q.closed = true) : q.waiting = [] := by
  refine List.eq_nil_iff_forall_not_mem.2 fun e he => ?_
  have hnone := deadline?_of_closed (k := e.1) (h.closed_iff.1 hc)
  rw [← h.lookup_eq, (lookup_eq_some_iff_mem h.keys_nodup).2 he] at hnone
  exact absurd hnone (by simp)

lemma Tracks.open_iff : q.closed = false ↔ .closed ∉ past := by
  rw [← h.closed_iff, Bool.not_eq_true]

lemma Tracks.add (k : κ) : Tracks (q.add k).1 (.added k :: past) where
  closed_iff := by simp [add_closed, h.closed_iff]
  keys_nodup := by simpa only [add_waiting] using h.keys_nodup
  lookup_eq j := by simp [add_waiting, h.lookup_eq, deadline?]
  dirty_iff j := by
    rw [mem_dirty_add, h.dirty_iff, owed_cons, h.open_iff]
    simp only [Accepts, ne_eq, reduceCtorEq, not_false_eq_true, true_and, eq_comm (a := j)]
    exact or_comm
  processing_iff j := by simp [add_processing, h.processing_iff, busy_cons]

lemma Tracks.await (hopen : q.closed = false) (k : κ) (deadline : Nat) :
    Tracks (q.await k deadline) (.delayed k deadline :: past) := by
  obtain ⟨-, hdirty, hprocessing⟩ := await_queue q k deadline
  have hclosed : (q.await k deadline).closed = q.closed := by
    unfold WorkQueue.await
    split <;> rfl
  refine ⟨?_, keys_await q k deadline h.keys_nodup, fun j => ?_, fun j => ?_, fun j => ?_⟩
  · simp [hclosed, h.closed_iff]
  · rw [lookup_await, deadline?, h.lookup_eq, h.lookup_eq]
    by_cases hj : j = k
    · subst hj
      simp [h.open_iff.1 hopen]
    · simp [hj, Ne.symm hj]
  · simp [hdirty, h.dirty_iff, owed_cons, Accepts]
  · simp [hprocessing, h.processing_iff, busy_cons]

/-- A delayed add to a closed queue changes nothing. -/
lemma Tracks.delayed_of_closed (hc : q.closed = true) (k : κ) (deadline : Nat) :
    Tracks q (.delayed k deadline :: past) where
  closed_iff := by simp [h.closed_iff]
  keys_nodup := h.keys_nodup
  lookup_eq j := by simp [h.lookup_eq, deadline?, h.closed_iff.1 hc]
  dirty_iff j := by simp [h.dirty_iff, owed_cons, Accepts]
  processing_iff j := by simp [h.processing_iff, busy_cons]

lemma Tracks.shutDown : Tracks q.shutDown.1 (.closed :: past) where
  closed_iff := by simp [WorkQueue.shutDown]
  keys_nodup := List.nodup_nil
  lookup_eq j := by simp [WorkQueue.shutDown, deadline?]
  dirty_iff j := by simp [WorkQueue.shutDown, h.dirty_iff, owed_cons, Accepts]
  processing_iff j := by simp [WorkQueue.shutDown, h.processing_iff, busy_cons]

lemma Tracks.promote (now : Nat) : Tracks (q.promote now) (.looked now :: past) where
  closed_iff := by simp [promote_closed, h.closed_iff]
  keys_nodup := keys_promote h.keys_nodup now
  lookup_eq k := by rw [lookup_promote h.keys_nodup, h.lookup_eq, deadline?]
  dirty_iff k := by
    have hdue : (∃ d ≤ now, (k, d) ∈ q.waiting) ↔ ∃ d, deadline? k past = some d ∧ d ≤ now := by
      simp only [← lookup_eq_some_iff_mem h.keys_nodup, h.lookup_eq, and_comm]
    rw [mem_dirty_promote, hdue, h.dirty_iff, h.open_iff, owed_cons]
    simp only [Accepts, ne_eq, reduceCtorEq, not_false_eq_true, true_and]
    constructor
    · rintro (howed | ⟨hd, -⟩)
      · exact Or.inr howed
      · exact Or.inl hd
    · rintro (⟨d, hd, hnow⟩ | howed)
      · refine Or.inr ⟨⟨d, hd, hnow⟩, fun hc => ?_⟩
        rw [deadline?_of_closed hc] at hd
        exact absurd hd (by simp)
      · exact Or.inl howed
  processing_iff k := by simp [promote_processing, h.processing_iff, busy_cons]

lemma Tracks.handOut (k : κ) (rest : List κ) :
    Tracks { q with queue := rest, dirty := without q.dirty k, processing := withKey q.processing k }
      (.handedOut k :: past) where
  closed_iff := by simp [h.closed_iff]
  keys_nodup := h.keys_nodup
  lookup_eq j := by simp [h.lookup_eq, deadline?]
  dirty_iff j := by
    rw [mem_without, h.dirty_iff, owed_cons]
    simp only [Accepts, ne_eq, Deed.handedOut.injEq, false_or, eq_comm (a := k)]
    exact and_comm
  processing_iff j := by
    rw [mem_withKey, h.processing_iff, busy_cons]
    simp only [Deed.handedOut.injEq, ne_eq, reduceCtorEq, not_false_eq_true, true_and, eq_comm (a := k)]
    exact or_comm

lemma Tracks.done (k : κ) : Tracks (q.done k).1 (.finished k :: past) where
  closed_iff := by simp [done_closed, h.closed_iff]
  keys_nodup := by simpa only [done_waiting] using h.keys_nodup
  lookup_eq j := by simp [done_waiting, h.lookup_eq, deadline?]
  dirty_iff j := by simp [done_dirty, h.dirty_iff, owed_cons, Accepts]
  processing_iff j := by
    rw [done_processing, mem_without, h.processing_iff, busy_cons]
    simp only [reduceCtorEq, false_or, ne_eq, Deed.finished.injEq, eq_comm (a := k)]
    exact and_comm

end

/-! ## Calls and looks -/

/-- The deed of an add with a delay. -/
def Deed.ofDelay (now : Nat) (k : κ) (delay : Nat) : Deed κ :=
  if delay = 0 then .added k else .delayed k (now + delay)

def callDeeds (q : WorkQueue κ) (now : Nat) : Call κ → List (Deed κ)
  | .add k => [.added k]
  | .addAfter k delay => [.ofDelay now k delay]
  | .addRateLimited k => [.ofDelay now k (q.failures.record k).1]
  | .forget _ => []
  | .shutDown => [.closed]

def lookDeeds (q : WorkQueue κ) (now : Nat) : List (Deed κ) :=
  match (q.get now).1 with
  | .key k => [.handedOut k, .looked now]
  | _ => [.looked now]

/-- A call hands out nothing. -/
lemma handed?_of_mem_callDeeds {now : Nat} {a : Call κ} {d : Deed κ} (h : d ∈ q.callDeeds now a) :
    d.handed? = none := by
  have hdelay : ∀ j delay, (Deed.ofDelay now j delay : Deed κ).handed? = none := by
    intro j delay
    unfold Deed.ofDelay
    split_ifs <;> rfl
  cases a with
  | forget k => simp [callDeeds] at h
  | addAfter k delay => rw [List.mem_singleton.1 h, hdelay]
  | addRateLimited k => rw [List.mem_singleton.1 h, hdelay]
  | add k => exact List.mem_singleton.1 h ▸ rfl
  | shutDown => exact List.mem_singleton.1 h ▸ rfl

lemma Tracks.of_failures {past : List (Deed κ)} (h : Tracks q past) (failures : Failures κ) :
    Tracks { q with failures } past :=
  ⟨h.closed_iff, h.keys_nodup, h.lookup_eq, h.dirty_iff, h.processing_iff⟩

lemma Tracks.addAfter {past : List (Deed κ)} (h : Tracks q past) (now : Nat) (k : κ) (delay : Nat) :
    Tracks (q.addAfter now k delay).1 (.ofDelay now k delay :: past) := by
  unfold WorkQueue.addAfter Deed.ofDelay
  split_ifs with hdelay hc
  · exact h.add k
  · exact h.delayed_of_closed hc k _
  · exact h.await (by simpa using hc) k _

theorem Tracks.call {past : List (Deed κ)} (h : Tracks q past) (now : Nat) (a : Call κ) :
    Tracks (q.call now a).1 (q.callDeeds now a ++ past) := by
  cases a with
  | add k => exact h.add k
  | addAfter k delay => exact h.addAfter now k delay
  | addRateLimited k => exact (h.of_failures (q.failures.record k).2).addAfter now k _
  | forget k => exact h.of_failures _
  | shutDown => exact h.shutDown

lemma get_deeds_cases (q : WorkQueue κ) (now : Nat) :
    (∃ k rest, (q.promote now).queue = k :: rest ∧ q.lookDeeds now = [.handedOut k, .looked now] ∧
      (q.get now).2 = { q.promote now with
        queue := rest
        dirty := without (q.promote now).dirty k
        processing := withKey (q.promote now).processing k }) ∨
    ((q.promote now).queue = [] ∧ q.lookDeeds now = [.looked now] ∧ (q.get now).2 = q.promote now) := by
  cases hq : (q.promote now).queue with
  | cons k rest =>
    have hget := get_of_promote_cons hq
    exact Or.inl ⟨k, rest, rfl, by simp [lookDeeds, hget], by rw [hget]⟩
  | nil =>
    have hget := get_of_promote_nil hq
    refine Or.inr ⟨rfl, ?_, by rw [hget]⟩
    rw [lookDeeds, hget]
    cases q.closed <;> rfl

theorem Tracks.get {past : List (Deed κ)} (h : Tracks q past) (now : Nat) :
    Tracks (q.get now).2 (q.lookDeeds now ++ past) := by
  obtain ⟨k, rest, -, hdeeds, hget⟩ | ⟨-, hdeeds, hget⟩ := get_deeds_cases q now
  · rw [hdeeds, hget]
    exact (h.promote now).handOut k rest
  · rw [hdeeds, hget]
    exact h.promote now

/-- A look hands out only what is owed and not in work. -/
lemma Answered.look {past : List (Deed κ)} (ha : Answered past) (h : Tracks q past) (he : Exclusive q)
    (now : Nat) : Answered (q.lookDeeds now ++ past) := by
  have hlooked : Answered (.looked now :: past) := ha.cons (by simp)
  obtain ⟨k, rest, hq, hdeeds, -⟩ | ⟨-, hdeeds, -⟩ := get_deeds_cases q now
  · rw [hdeeds]
    refine hlooked.cons fun j hj => ?_
    obtain rfl := Deed.handedOut.inj hj
    have hqueued := ((he.promote now).queued_iff k).1 (hq ▸ List.mem_cons_self)
    have ht := h.promote now
    exact ⟨(ht.dirty_iff k).1 hqueued.1, fun hb => hqueued.2 ((ht.processing_iff k).2 hb)⟩
  · rw [hdeeds]
    exact hlooked

/-! ## First in, first out -/

lemma prefix_addAfter (q : WorkQueue κ) (now : Nat) (k : κ) (delay : Nat) :
    q.queue <+: (q.addAfter now k delay).1.queue := by
  unfold addAfter
  split_ifs
  · exact prefix_add q k
  · exact List.prefix_rfl
  · exact (await_queue q k _).1.symm ▸ List.prefix_rfl

lemma prefix_call (q : WorkQueue κ) (now : Nat) (a : Call κ) :
    q.queue <+: (q.call now a).1.queue := by
  cases a with
  | add k => exact prefix_add q k
  | addAfter k delay => exact prefix_addAfter q now k delay
  | addRateLimited k => exact prefix_addAfter { q with failures := (q.failures.record k).2 } now k _
  | forget k => exact List.prefix_rfl
  | shutDown => exact List.prefix_rfl

lemma prefix_get (q : WorkQueue κ) (now : Nat) :
    q.queue <+: handOuts (q.lookDeeds now) ++ (q.get now).2.queue := by
  have hgrown := prefix_promote q now
  obtain ⟨k, rest, hq, hdeeds, hget⟩ | ⟨-, hdeeds, hget⟩ := get_deeds_cases q now
  · rw [hdeeds, hget]
    rwa [hq] at hgrown
  · rw [hdeeds, hget]
    exact hgrown

end WorkQueue

/-! ## Logbooks -/

open WorkQueue

/-- A crew with what was done so far, latest first. -/
structure Logbook (κ ι : Type) extends Crew κ ι where
  past : List (Deed κ)

namespace Logbook
variable {κ ι : Type} [DecidableEq κ] [DecidableEq ι] {s s' : Logbook κ ι}

def new (policy : BackoffPolicy) : Logbook κ ι :=
  ⟨.new policy, []⟩

def call (s : Logbook κ ι) (now : Nat) (a : Call κ) : Logbook κ ι :=
  ⟨{ s.toCrew with queue := (s.queue.call now a).1 }, s.queue.callDeeds now a ++ s.past⟩

def look (s : Logbook κ ι) (now : Nat) (worker : ι) : Logbook κ ι :=
  ⟨s.toCrew.look now worker, s.queue.lookDeeds now ++ s.past⟩

def done (s : Logbook κ ι) (worker : ι) (k : κ) : Logbook κ ι :=
  ⟨⟨(s.queue.done k).1, s.held.erase (worker, k)⟩, .finished k :: s.past⟩

/-- One operation by anybody, at any time; only the worker that holds a key is done with it. -/
inductive Step (s : Logbook κ ι) : Logbook κ ι → Prop
  | call (now : Nat) (a : Call κ) : Step s (s.call now a)
  | look (now : Nat) (worker : ι) : Step s (s.look now worker)
  | done (worker : ι) (k : κ) (held : (worker, k) ∈ s.held) : Step s (s.done worker k)

abbrev Runs : Logbook κ ι → Logbook κ ι → Prop :=
  Relation.ReflTransGen Step

def Reachable (policy : BackoffPolicy) : Logbook κ ι → Prop :=
  Runs (new policy)

lemma crew_step (hs : Step s s') : Crew.Step s.toCrew s'.toCrew := by
  cases hs with
  | call now a =>
    cases a with
    | add k => exact .add k
    | addAfter k delay => exact .addAfter now k delay
    | addRateLimited k => exact .addRateLimited now k
    | forget k => exact .forget k
    | shutDown => exact .shutDown
  | look now worker => exact Crew.look_step s.toCrew now worker
  | done worker k held => exact .done worker k held

omit [DecidableEq ι] in
lemma queue_look (s : Logbook κ ι) (now : Nat) (worker : ι) :
    (s.look now worker).queue = (s.queue.get now).2 := by
  obtain ⟨k, queue, hgot, hlook⟩ | ⟨answer, queue, hgot, -, hlook⟩ := s.toCrew.look_cases now worker
  · simp [look, hlook, hgot]
  · simp [look, hlook, hgot]

/-- The crew is orderly, the queue holds what the past says, and every hand-out was answered. -/
structure Truthful (s : Logbook κ ι) : Prop where
  orderly : s.toCrew.Orderly
  tracks : Tracks s.queue s.past
  answered : Answered s.past

theorem Truthful.step (h : Truthful s) (hs : Step s s') : Truthful s' := by
  have horderly := h.orderly.step (crew_step hs)
  cases hs with
  | call now a =>
    exact ⟨horderly, h.tracks.call now a, h.answered.append fun d => handed?_of_mem_callDeeds⟩
  | look now worker =>
    refine ⟨horderly, ?_, h.answered.look h.tracks h.orderly.exclusive now⟩
    rw [queue_look]
    exact h.tracks.get now
  | done worker k held => exact ⟨horderly, h.tracks.done k, h.answered.cons (by simp)⟩

lemma Truthful.runs (h : Truthful s) (hr : Runs s s') : Truthful s' := by
  induction hr with
  | refl => exact h
  | tail _ hs ih => exact ih.step hs

lemma Truthful.of_reachable {policy : BackoffPolicy} (h : Reachable policy s) : Truthful s := by
  have hcrew : Crew.Reachable policy (Crew.new policy : Crew κ ι) := .refl
  have hnew : Truthful (new policy : Logbook κ ι) :=
    ⟨Crew.Orderly.of_reachable hcrew, .new policy, .nil⟩
  exact hnew.runs h

lemma step_prefix (hs : Step s s') :
    ∃ recent, s'.past = recent ++ s.past ∧ s.queue.queue <+: handOuts recent ++ s'.queue.queue := by
  cases hs with
  | call now a =>
    have hnone : handOuts (s.queue.callDeeds now a) = [] :=
      List.filterMap_eq_nil_iff.2 fun d hd => handed?_of_mem_callDeeds (List.mem_reverse.1 hd)
    exact ⟨_, rfl, hnone ▸ prefix_call s.queue now a⟩
  | look now worker => exact ⟨_, rfl, (queue_look s now worker).symm ▸ prefix_get s.queue now⟩
  | done worker k held =>
    refine ⟨[.finished k], rfl, ?_⟩
    exact (done_queue s.queue k).symm ▸ List.prefix_append _ _

/-- What is queued comes out in its order, before anything that is queued later. -/
theorem runs_prefix (hr : Runs s s') :
    ∃ recent, s'.past = recent ++ s.past ∧ s.queue.queue <+: handOuts recent ++ s'.queue.queue := by
  induction hr with
  | refl => exact ⟨[], rfl, List.prefix_rfl⟩
  | tail _ hs ih =>
    obtain ⟨recent, hpast, hbefore⟩ := ih
    obtain ⟨latest, hpast', hafter⟩ := step_prefix hs
    refine ⟨latest ++ recent, by rw [hpast', hpast, List.append_assoc], ?_⟩
    rw [handOuts_append, List.append_assoc]
    exact hbefore.trans ((List.prefix_append_right_inj _).2 hafter)

/-! ## No add is lost -/

/-- The queue remembers every accepted add up to one hand-out, and hands out nothing else. -/
structure LosesNoAdd (s : Logbook κ ι) : Prop where
  /-- A key is dirty exactly if an add of it was accepted after it was last handed out. -/
  dirty_iff : ∀ k, k ∈ s.queue.dirty ↔ Owed s.past k
  /-- A delayed key waits for the earliest of its deadlines. -/
  waiting : ∀ k, s.queue.waiting.lookup k = deadline? k s.past
  /-- Every hand-out of a key answers an add accepted since the one before, whose work has ended. -/
  answered : ∀ k later earlier, s.past = later ++ .handedOut k :: earlier →
    Owed earlier k ∧ ¬Busy earlier k
  /-- However many adds of a key were accepted, until another is accepted the key is handed out once or
  still dirty. A key that is not dirty is not handed out. -/
  once : ∀ s' recent k, Runs s s' → s'.past = recent ++ s.past → ¬AcceptedIn s.past recent k →
    (handOuts recent).count k + (if k ∈ s'.queue.dirty then 1 else 0) =
      if k ∈ s.queue.dirty then 1 else 0
  /-- The queued keys are the next to come out, in their order, before any that is queued later. -/
  in_order : ∀ s' recent, Runs s s' → s'.past = recent ++ s.past →
    s.queue.queue <+: handOuts recent ++ s'.queue.queue
  /-- A dirty key is queued, or it is in work and is queued last when its work ends. -/
  queued : ∀ k ∈ s.queue.dirty, (k ∈ s.queue.queue ∧ k ∉ s.queue.processing) ∨
    (k ∈ s.queue.processing ∧ (s.queue.done k).1.queue = s.queue.queue ++ [k])
  /-- A look hands out the first key of the queue. -/
  first : ∀ now k rest, s.queue.queue = k :: rest → (s.queue.get now).1 = .key k

theorem loses_no_add {policy : BackoffPolicy} (h : Reachable policy s) : LosesNoAdd s := by
  have ht := Truthful.of_reachable h
  refine ⟨ht.tracks.dirty_iff, ht.tracks.lookup_eq, ht.answered, ?_, ?_, ?_, ?_⟩
  · intro s' recent k hr hpast hquiet
    classical
    have ht' := ht.runs hr
    have hdirty : k ∈ s'.queue.dirty ↔ Owed (recent ++ s.past) k := hpast ▸ ht'.tracks.dirty_iff k
    rw [if_congr hdirty rfl rfl, if_congr (ht.tracks.dirty_iff k) rfl rfl]
    exact count_handOuts (hpast ▸ ht'.answered) hquiet
  · intro s' recent hr hpast
    obtain ⟨recent', hpast', hprefix⟩ := runs_prefix hr
    rw [hpast] at hpast'
    rwa [List.append_cancel_right hpast']
  · intro k hk
    by_cases hp : k ∈ s.queue.processing
    · exact Or.inr ⟨hp, by rw [done_queue, if_pos hk]⟩
    · exact Or.inl ⟨(ht.orderly.exclusive.queued_iff k).2 ⟨hk, hp⟩, hp⟩
  · intro now k rest hq
    exact get_of_queue hq now

/-- The first worker has key 1, of which three more adds were accepted: two direct ones, and one with a delay
that came due when the second worker looked. -/
def collapsing : Logbook Nat Nat :=
  let started := ((new .standard).call 0 (.add 1)).look 0 1
  ((((started.call 0 (.add 1)).call 0 (.addAfter 1 5)).call 0 (.addAfter 2 9)).call 1 (.add 1)).look 7 2

lemma collapsing_reachable : Reachable .standard collapsing := by
  have hstarted := (Relation.ReflTransGen.refl (r := Step) (a := (new .standard : Logbook Nat Nat)))
    |>.tail (.call 0 (.add 1)) |>.tail (.look 0 1)
  exact hstarted.tail (.call 0 (.add 1)) |>.tail (.call 0 (.addAfter 1 5)) |>.tail (.call 0 (.addAfter 2 9))
    |>.tail (.call 1 (.add 1)) |>.tail (.look 7 2)

/-- All three adds are remembered as one, and key 2 still waits. -/
theorem loses_no_add_collapsing :
    Reachable .standard collapsing ∧ collapsing.queue.dirty = [1] ∧
    collapsing.queue.waiting = [(2, 9)] ∧ collapsing.held = [(1, 1)] ∧ LosesNoAdd collapsing :=
  ⟨collapsing_reachable, by decide +kernel, by decide +kernel, by decide +kernel,
    loses_no_add collapsing_reachable⟩

end Logbook

end Timetable
