import Mathlib.Order.MinMax
import Timetable.Proofs.Queue.Operations

/-!
# Delayed keys keep their deadlines

A diary is a queue with what its delayed keys have met with, latest first: the adds that asked for a delay, and
the looks with the keys that each of them promoted. The main result is that a delayed key waits for the earliest
deadline that was asked for since it was last promoted: nothing puts the deadline off, and the first look at or
after it promotes the key.
-/

namespace Timetable

namespace WorkQueue
variable {κ : Type} [DecidableEq κ] {q : WorkQueue κ} {j k : κ} {now : Nat}

/-! ## Adding and promoting -/

/-- An add with a delay never puts off the deadline of a key. -/
lemma exists_lookup_addAfter {d : Nat} (hd : q.waiting.lookup k = some d) (now : Nat) (j : κ) (delay : Nat) :
    ∃ e ≤ d, (q.addAfter now j delay).1.waiting.lookup k = some e := by
  unfold addAfter
  split_ifs
  · exact ⟨d, le_rfl, by rw [add_waiting, hd]⟩
  · exact ⟨d, le_rfl, hd⟩
  · rw [lookup_await]
    by_cases hk : k = j
    · subst hk
      rw [if_pos rfl, hd]
      exact ⟨_, min_le_right _ _, rfl⟩
    · rw [if_neg hk]
      exact ⟨d, le_rfl, hd⟩

section
variable (keys : List κ) (q : WorkQueue κ)

/-- Of the keys that are promoted, those that are neither dirty nor in work are queued, in their order. -/
lemma queue_foldl_takeDue (hopen : q.closed = false) (hnodup : keys.Nodup) :
    (keys.foldl takeDue q).queue = q.queue ++ keys.filter fun k => k ∉ q.dirty ∧ k ∉ q.processing := by
  induction keys generalizing q with
  | nil => simp
  | cons k rest ih =>
    obtain ⟨hk, hrest⟩ := List.nodup_cons.1 hnodup
    have hsame : (rest.filter fun j => j ∉ (takeDue q k).dirty ∧ j ∉ (takeDue q k).processing) =
        rest.filter fun j => j ∉ q.dirty ∧ j ∉ q.processing := by
      apply List.filter_congr
      intro j hj
      have hne : j ≠ k := fun h => hk (h ▸ hj)
      simp [takeDue, mem_dirty_add, add_processing, hne]
    rw [List.foldl_cons, ih (takeDue q k) ((add_closed _ k).trans hopen) hrest, hsame, List.filter_cons]
    unfold takeDue add
    dsimp only
    by_cases hd : k ∈ q.dirty
    · simp [hd]
    · by_cases hp : k ∈ q.processing
      · simp [hopen, hd, hp]
      · simp [hopen, hd, hp]

end

omit [DecidableEq κ] in
lemma nodup_dueKeys (h : (q.waiting.map Prod.fst).Nodup) (now : Nat) : (q.dueKeys now).Nodup := by
  have hperm : ((q.due now).map Prod.fst).Perm ((q.waiting.filter (·.2 ≤ now)).map Prod.fst) :=
    (List.mergeSort_perm _ _).map _
  exact hperm.nodup_iff.2 (h.sublist (List.filter_sublist.map _))

lemma sorted_dueKeys (h : (q.waiting.map Prod.fst).Nodup) (now : Nat) :
    (q.dueKeys now).Pairwise fun i j => ∀ d e, q.waiting.lookup i = some d → q.waiting.lookup j = some e →
      d ≤ e := by
  have hsorted : (q.due now).Pairwise fun a b => a.2 ≤ b.2 := by
    have htrans : ∀ a b c : κ × Nat, decide (a.2 ≤ b.2) = true → decide (b.2 ≤ c.2) = true →
        decide (a.2 ≤ c.2) = true := fun a b c => by simpa using Nat.le_trans
    have htotal : ∀ a b : κ × Nat, (decide (a.2 ≤ b.2) || decide (b.2 ≤ a.2)) = true := fun a b => by
      simpa using Nat.le_total a.2 b.2
    simpa [due] using List.pairwise_mergeSort htrans htotal (q.waiting.filter (·.2 ≤ now))
  unfold dueKeys
  rw [List.pairwise_map]
  refine hsorted.imp_of_mem fun {a b} ha hb hle d e hd he => ?_
  rw [(lookup_eq_some_iff_mem h).2 (mem_due.1 ha).1] at hd
  rw [(lookup_eq_some_iff_mem h).2 (mem_due.1 hb).1] at he
  rwa [← Option.some.inj hd, ← Option.some.inj he]

/-- What a look does: the keys are promoted in this order, and the keys in `handed` are handed out. A key that was
dirty before only merges with the add that made it so. -/
structure Promotes (q after : WorkQueue κ) (keys handed : List κ) : Prop where
  waiting : ∀ k, after.waiting.lookup k = if k ∈ keys then none else q.waiting.lookup k
  queue : handed ++ after.queue = q.queue ++ keys.filter fun k => k ∉ q.dirty ∧ k ∉ q.processing
  dirty : ∀ k, k ∈ after.dirty ↔ (k ∈ q.dirty ∨ k ∈ keys) ∧ k ∉ handed

lemma promotes_promote (hopen : q.closed = false) (h : (q.waiting.map Prod.fst).Nodup) (now : Nat) :
    Promotes q (q.promote now) (q.dueKeys now) [] where
  waiting := lookup_promote_eq_ite q now
  queue := by
    rw [promote_eq, queue_foldl_takeDue _ _ hopen (nodup_dueKeys h now)]
    rfl
  dirty k := by
    rw [promote_eq, mem_dirty_foldl_takeDue]
    simp [hopen]

/-- A look promotes what is due and hands out the first key that is queued then, if there is one. -/
theorem promotes_get (hopen : q.closed = false) (h : (q.waiting.map Prod.fst).Nodup) (now : Nat) :
    ∃ handed : Option κ, (q.get now).1 = handed.elim .empty .key ∧
      Promotes q (q.get now).2 (q.dueKeys now) handed.toList := by
  have hpromote := promotes_promote hopen h now
  cases hq : (q.promote now).queue with
  | nil =>
    have hget := get_of_promote_nil hq
    refine ⟨none, by simp [hget, hopen], ?_⟩
    rw [hget]
    exact hpromote
  | cons k rest =>
    refine ⟨some k, by rw [get_of_promote_cons hq]; rfl, ?_⟩
    rw [get_of_promote_cons hq]
    constructor
    · exact hpromote.waiting
    · rw [← hpromote.queue, hq]
      rfl
    · intro j
      simp [mem_without, hpromote.dirty]

/-! ## What concerns delayed keys -/

/-- What happened to the delayed keys of a queue. -/
inductive Entry (κ : Type)
  /-- At some time a key was asked for after a delay. -/
  | asked (k : κ) (time delay : Nat)
  /-- A look promoted some keys, in this order. -/
  | looked (time : Nat) (promoted : List κ)
  | closed
  deriving DecidableEq

namespace Entry

def promotes (k : κ) : Entry κ → Bool
  | looked _ promoted => k ∈ promoted
  | _ => false

/-- The deadline that an add asks for. Without a delay there is none. -/
def deadlineFor? (k : κ) : Entry κ → Option Nat
  | asked j time delay => if j = k ∧ delay ≠ 0 then some (time + delay) else none
  | _ => none

end Entry

/-- The deadlines asked for since the key was last promoted. -/
def deadlines (k : κ) (past : List (Entry κ)) : List Nat :=
  (past.takeWhile fun e => !e.promotes k).filterMap (Entry.deadlineFor? k)

/-- A look promoted, once each and in the order of their deadlines, exactly the keys whose earliest deadline had
come. -/
structure Timely (earlier : List (Entry κ)) (time : Nat) (promoted : List κ) : Prop where
  nodup : promoted.Nodup
  mem_iff : ∀ k, k ∈ promoted ↔ .closed ∉ earlier ∧ ∃ d, (deadlines k earlier).min? = some d ∧ d ≤ time
  sorted : promoted.Pairwise fun j k => ∀ d e, (deadlines j earlier).min? = some d →
    (deadlines k earlier).min? = some e → d ≤ e

section
variable {past : List (Entry κ)} {time delay : Nat}

@[simp]
lemma deadlines_closed : deadlines k (.closed :: past) = deadlines k past := rfl

lemma deadlines_asked : deadlines k (.asked j time delay :: past) =
    if j = k ∧ delay ≠ 0 then (time + delay) :: deadlines k past else deadlines k past := by
  unfold deadlines
  rw [List.takeWhile_cons_of_pos rfl, List.filterMap_cons]
  by_cases h : j = k ∧ delay ≠ 0
  · simp [Entry.deadlineFor?, h]
  · simp only [Entry.deadlineFor?, if_neg h]

lemma deadlines_looked {promoted : List κ} : deadlines k (.looked time promoted :: past) =
    if k ∈ promoted then [] else deadlines k past := by
  unfold deadlines
  by_cases h : k ∈ promoted
  · simp [Entry.promotes, h]
  · rw [List.takeWhile_cons_of_pos (by simpa [Entry.promotes] using h), if_neg h]
    rfl

end

/-! ## The queue and its entries -/

/-- The queue has what its entries say about delayed keys. -/
structure Heeds (q : WorkQueue κ) (past : List (Entry κ)) : Prop where
  closed_iff : q.closed = true ↔ .closed ∈ past
  keys_nodup : (q.waiting.map Prod.fst).Nodup
  lookup_eq : ∀ k, q.waiting.lookup k = if q.closed then none else (deadlines k past).min?
  timely : ∀ later time promoted earlier, past = later ++ .looked time promoted :: earlier →
    Timely earlier time promoted

namespace Heeds
variable {past : List (Entry κ)}

lemma new (policy : BackoffPolicy) : Heeds (WorkQueue.new policy : WorkQueue κ) [] where
  closed_iff := by simp [WorkQueue.new]
  keys_nodup := List.nodup_nil
  lookup_eq k := rfl
  timely later time promoted earlier h := by simp at h

/-- What leaves the delayed keys alone changes nothing. -/
lemma of_waiting {q' : WorkQueue κ} (h : Heeds q past) (hwaiting : q'.waiting = q.waiting)
    (hclosed : q'.closed = q.closed) : Heeds q' past := by
  obtain ⟨hc, hn, hl, ht⟩ := h
  exact ⟨hclosed ▸ hc, hwaiting ▸ hn, by simpa only [hwaiting, hclosed] using hl, ht⟩

lemma timely_cons {e : Entry κ} (h : Heeds q past)
    (he : ∀ time promoted, e = .looked time promoted → Timely past time promoted) (later : List (Entry κ))
    (time : Nat) (promoted : List κ) (earlier : List (Entry κ))
    (hpast : e :: past = later ++ .looked time promoted :: earlier) : Timely earlier time promoted := by
  cases later with
  | nil =>
    obtain ⟨rfl, rfl⟩ := List.cons.inj hpast
    exact he time promoted rfl
  | cons d later =>
    obtain ⟨rfl, rfl⟩ := List.cons.inj hpast
    exact h.timely later time promoted earlier rfl

lemma addAfter (h : Heeds q past) (now : Nat) (k : κ) (delay : Nat) :
    Heeds (q.addAfter now k delay).1 (.asked k now delay :: past) := by
  have htimely := h.timely_cons (e := .asked k now delay) (by simp)
  unfold WorkQueue.addAfter
  split_ifs with hdelay hclosed
  · -- without a delay the key does not wait
    refine ⟨by simp [add_closed, h.closed_iff], add_waiting q k ▸ h.keys_nodup, fun j => ?_, htimely⟩
    rw [add_waiting, add_closed, h.lookup_eq, deadlines_asked, if_neg (fun hk : k = j ∧ delay ≠ 0 => hk.2 hdelay)]
  · refine ⟨by simp [h.closed_iff], h.keys_nodup, fun j => ?_, htimely⟩
    rw [h.lookup_eq, if_pos hclosed, if_pos hclosed]
  · have hsame : (q.await k (now + delay)).closed = q.closed := by
      unfold await
      split <;> rfl
    refine ⟨by simp [hsame, h.closed_iff], keys_await q k _ h.keys_nodup, fun j => ?_, htimely⟩
    simp only [lookup_await, h.lookup_eq, hsame, if_neg hclosed, deadlines_asked]
    by_cases hj : j = k
    · subst hj
      rw [if_pos rfl, if_pos ⟨rfl, hdelay⟩, List.min?_cons]
      cases (deadlines j past).min? with
      | none => simp
      | some d => rfl
    · rw [if_neg hj, if_neg fun hk => hj hk.1.symm]

/-- A look promotes the keys whose deadlines have come. -/
lemma timely_dueKeys (h : Heeds q past) (now : Nat) : Timely past now (q.dueKeys now) := by
  have hlookup : ∀ {k d}, q.waiting.lookup k = some d → (deadlines k past).min? = some d ∧ .closed ∉ past := by
    intro k d hd
    rw [h.lookup_eq] at hd
    split_ifs at hd with hclosed
    exact ⟨hd, fun hc => hclosed (h.closed_iff.2 hc)⟩
  refine ⟨nodup_dueKeys h.keys_nodup now, fun k => ?_, ?_⟩
  · rw [mem_dueKeys h.keys_nodup]
    constructor
    · rintro ⟨d, hd, hdue⟩
      exact ⟨(hlookup hd).2, d, (hlookup hd).1, hdue⟩
    · rintro ⟨hopen, d, hd, hdue⟩
      refine ⟨d, ?_, hdue⟩
      rw [h.lookup_eq, if_neg fun hc => hopen (h.closed_iff.1 hc), hd]
  · refine (sorted_dueKeys h.keys_nodup now).imp_of_mem fun {i j} hi hj hle d e hd he => ?_
    obtain ⟨d', hd', -⟩ := (mem_dueKeys h.keys_nodup).1 hi
    obtain ⟨e', he', -⟩ := (mem_dueKeys h.keys_nodup).1 hj
    rw [(hlookup hd').1] at hd
    rw [(hlookup he').1] at he
    rw [← Option.some.inj hd, ← Option.some.inj he]
    exact hle d' e' hd' he'

lemma get (h : Heeds q past) (now : Nat) :
    Heeds (q.get now).2 (.looked now (q.dueKeys now) :: past) := by
  have hpromoted : Heeds (q.promote now) (.looked now (q.dueKeys now) :: past) := by
    refine ⟨by simp [promote_closed, h.closed_iff], keys_promote h.keys_nodup now, fun k => ?_, ?_⟩
    · rw [promote_closed, lookup_promote_eq_ite, h.lookup_eq, deadlines_looked]
      by_cases hk : k ∈ q.dueKeys now
      · simp [hk]
      · simp [hk]
    · apply h.timely_cons
      rintro time promoted hlooked
      obtain ⟨rfl, rfl⟩ := Entry.looked.inj hlooked
      exact h.timely_dueKeys now
  exact hpromoted.of_waiting (get_waiting q now) ((get_closed q now).trans (promote_closed q now).symm)

lemma shutDown (h : Heeds q past) : Heeds q.shutDown.1 (.closed :: past) where
  closed_iff := by simp [WorkQueue.shutDown]
  keys_nodup := List.nodup_nil
  lookup_eq k := rfl
  timely := h.timely_cons (by simp)

end Heeds

/-- What a call tells about delayed keys. -/
def callEntries (q : WorkQueue κ) (now : Nat) : Call κ → List (Entry κ)
  | .addAfter k delay => [.asked k now delay]
  | .addRateLimited k => [.asked k now (q.failures.record k).1]
  | .shutDown => [.closed]
  | .add _ | .forget _ => []

theorem Heeds.call {past : List (Entry κ)} (h : Heeds q past) (now : Nat) (a : Call κ) :
    Heeds (q.call now a).1 (q.callEntries now a ++ past) := by
  cases a with
  | add k => exact h.of_waiting (add_waiting q k) (add_closed q k)
  | addAfter k delay => exact h.addAfter now k delay
  | addRateLimited k =>
    have hcounted : Heeds { q with failures := (q.failures.record k).2 } past := h.of_waiting rfl rfl
    exact hcounted.addAfter now k _
  | forget k => exact h.of_waiting rfl rfl
  | shutDown => exact h.shutDown

end WorkQueue

/-! ## Diaries -/

open WorkQueue

/-- A queue with what concerned its delayed keys so far, latest first. -/
structure Diary (κ : Type) where
  queue : WorkQueue κ
  past : List (Entry κ)

namespace Diary
variable {κ : Type} [DecidableEq κ] {s s' : Diary κ} {k : κ} {d : Nat}

def new (policy : BackoffPolicy) : Diary κ :=
  ⟨.new policy, []⟩

def call (s : Diary κ) (now : Nat) (a : Call κ) : Diary κ :=
  ⟨(s.queue.call now a).1, s.queue.callEntries now a ++ s.past⟩

def look (s : Diary κ) (now : Nat) : Diary κ :=
  ⟨(s.queue.get now).2, .looked now (s.queue.dueKeys now) :: s.past⟩

/-- One operation by anybody, at any time, also the end of work that nobody began. A rate-limited add may be
taken in two parts: the failure is counted, and later the key is added with the delay. -/
inductive Step (s : Diary κ) : Diary κ → Prop
  | call (now : Nat) (a : Call κ) : Step s (s.call now a)
  | count (k : κ) :
      Step s { s with queue := { s.queue with failures := (s.queue.failures.record k).2 } }
  | look (now : Nat) : Step s (s.look now)
  | done (k : κ) : Step s { s with queue := (s.queue.done k).1 }

def Reachable (policy : BackoffPolicy) : Diary κ → Prop :=
  Relation.ReflTransGen Step (new policy)

theorem heeds_step (h : Heeds s.queue s.past) (hs : Step s s') : Heeds s'.queue s'.past := by
  cases hs with
  | call now a => exact h.call now a
  | count k => exact h.of_waiting rfl rfl
  | look now => exact h.get now
  | done k => exact h.of_waiting (done_waiting _ k) (done_closed _ k)

lemma heeds_of_reachable {policy : BackoffPolicy} (h : Reachable policy s) : Heeds s.queue s.past := by
  induction h with
  | refl => exact .new policy
  | tail _ hs ih => exact heeds_step ih hs

/-- A key goes on waiting, until its deadline at the latest, unless a look finds the deadline come or the queue is
closed. -/
theorem step_keeps (h : Heeds s.queue s.past) (hs : Step s s') (hd : s.queue.waiting.lookup k = some d) :
    (∃ e ≤ d, s'.queue.waiting.lookup k = some e) ∨ (∃ now, d ≤ now ∧ s' = s.look now) ∨
      ∃ now, s' = s.call now .shutDown := by
  have hsame : ∀ {q : WorkQueue κ}, q.waiting = s.queue.waiting → ∃ e ≤ d, q.waiting.lookup k = some e :=
    fun hw => ⟨d, le_rfl, hw ▸ hd⟩
  cases hs with
  | call now a =>
    cases a with
    | add j => exact Or.inl (hsame (add_waiting _ j))
    | addAfter j delay => exact Or.inl (exists_lookup_addAfter hd now j delay)
    | addRateLimited j =>
      exact Or.inl (exists_lookup_addAfter
        (q := { s.queue with failures := (s.queue.failures.record j).2 }) hd now j _)
    | forget j => exact Or.inl (hsame rfl)
    | shutDown => exact Or.inr (Or.inr ⟨now, rfl⟩)
  | count j => exact Or.inl (hsame rfl)
  | look now =>
    by_cases hdue : d ≤ now
    · exact Or.inr (Or.inl ⟨now, hdue, rfl⟩)
    · left
      refine ⟨d, le_rfl, ?_⟩
      change (s.queue.get now).2.waiting.lookup k = some d
      rw [get_waiting, lookup_promote h.keys_nodup, hd]
      simpa using Nat.lt_of_not_le hdue
  | done j => exact Or.inl (hsame (done_waiting _ j))

/-- No delayed key is forgotten or put off. -/
structure KeepsDeadlines (s : Diary κ) : Prop where
  /-- A key waits for the earliest deadline that was asked for since it was last promoted. In a closed queue
  nothing waits. -/
  earliest : ∀ k, s.queue.waiting.lookup k = if s.queue.closed then none else (deadlines k s.past).min?
  once : (s.queue.waiting.map Prod.fst).Nodup
  /-- Only a look at or after the deadline and the closing of the queue end the wait, and nothing prolongs it. -/
  kept : ∀ s' k d, Step s s' → s.queue.waiting.lookup k = some d →
    (∃ e ≤ d, s'.queue.waiting.lookup k = some e) ∨ (∃ now, d ≤ now ∧ s' = s.look now) ∨
      ∃ now, s' = s.call now .shutDown
  /-- Every look so far promoted the keys whose deadlines had come, and no others. -/
  timely : ∀ later time promoted earlier, s.past = later ++ .looked time promoted :: earlier →
    Timely earlier time promoted
  /-- So does the next one. What it promotes is queued in the order of the deadlines, unless it is dirty or in work,
  and keys that are not due go on waiting. -/
  promotes : s.queue.closed = false → ∀ now, Timely s.past now (s.queue.dueKeys now) ∧
    ∃ handed : Option κ, (s.queue.get now).1 = handed.elim .empty .key ∧
      Promotes s.queue (s.queue.get now).2 (s.queue.dueKeys now) handed.toList

theorem keeps_deadlines {policy : BackoffPolicy} (h : Reachable policy s) : KeepsDeadlines s := by
  have hheeds := heeds_of_reachable h
  constructor
  · exact hheeds.lookup_eq
  · exact hheeds.keys_nodup
  · intro s' k d hs hd
    exact step_keeps hheeds hs hd
  · exact hheeds.timely
  · intro hopen now
    exact ⟨hheeds.timely_dueKeys now, promotes_get hopen hheeds.keys_nodup now⟩

/-- Key 1 is in work and was asked for twice with a delay, once because it failed. Key 2 is dirty besides. The
look at 3 finds the deadline of key 2 come, and the look at 6 that of key 1. -/
def crossing : Diary Nat :=
  let working := ((new ⟨4, 100⟩).call 0 (.add 1)).look 0
  let asked := ((working.call 0 (.addAfter 1 9)).call 1 (.addRateLimited 1)).call 1 (.addAfter 3 20)
  (((asked.call 1 (.addAfter 2 2)).call 2 (.add 2)).look 3).look 6

lemma crossing_reachable : Reachable ⟨4, 100⟩ crossing := by
  have hworking := (Relation.ReflTransGen.refl (r := Step) (a := (new ⟨4, 100⟩ : Diary Nat)))
    |>.tail (.call 0 (.add 1)) |>.tail (.look 0)
  exact hworking.tail (.call 0 (.addAfter 1 9)) |>.tail (.call 1 (.addRateLimited 1))
    |>.tail (.call 1 (.addAfter 3 20)) |>.tail (.call 1 (.addAfter 2 2)) |>.tail (.call 2 (.add 2))
    |>.tail (.look 3) |>.tail (.look 6)

/-- The later deadline of key 1 was dropped, and key 2 was handed out once for both of its adds. -/
theorem keeps_deadlines_crossing :
    Reachable ⟨4, 100⟩ crossing ∧ crossing.past.take 2 = [.looked 6 [1], .looked 3 [2]] ∧
    crossing.queue.waiting = [(3, 21)] ∧ crossing.queue.dirty = [1] ∧ crossing.queue.queue = [] ∧
    KeepsDeadlines crossing :=
  ⟨crossing_reachable, by decide +kernel, by decide +kernel, by decide +kernel, by decide +kernel,
    keeps_deadlines crossing_reachable⟩

end Diary

end Timetable
