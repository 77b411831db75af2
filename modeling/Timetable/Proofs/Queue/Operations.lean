import Timetable.Proofs.Queue.Exclusion

/-!
# What the operations do

The effect of each operation on the collections of a queue: which keys become dirty, how the queue grows at
its end, and which keys wait for a deadline. `Call` gathers the operations that are open to everybody.
-/

namespace Timetable.WorkQueue
variable {κ : Type} [DecidableEq κ] {q : WorkQueue κ} {j k : κ}

/-- An operation that anybody may call at any time. -/
inductive Call (κ : Type)
  | add (k : κ)
  | addAfter (k : κ) (delay : Nat)
  | addRateLimited (k : κ)
  | forget (k : κ)
  | shutDown

/-- The result of a call, and whether it wakes those who wait. -/
def call (q : WorkQueue κ) (now : Nat) : Call κ → WorkQueue κ × Bool
  | .add k => q.add k
  | .addAfter k delay => q.addAfter now k delay
  | .addRateLimited k => q.addRateLimited now k
  | .forget k => (q.forget k, false)
  | .shutDown => q.shutDown

/-! ## Adding -/

lemma add_of_closed (h : q.closed = true) (k : κ) : q.add k = (q, false) := by
  simp [add, h]

lemma add_closed (q : WorkQueue κ) (k : κ) : (q.add k).1.closed = q.closed := by
  unfold add
  dsimp only
  split_ifs <;> rfl

lemma add_waiting (q : WorkQueue κ) (k : κ) : (q.add k).1.waiting = q.waiting := by
  unfold add
  dsimp only
  split_ifs <;> rfl

lemma mem_dirty_add : j ∈ (q.add k).1.dirty ↔ j ∈ q.dirty ∨ (j = k ∧ q.closed = false) := by
  unfold add
  dsimp only
  split_ifs with hk hp
  · constructor
    · exact Or.inl
    · rintro (hj | ⟨rfl, hopen⟩)
      · exact hj
      · exact hk.resolve_left (by simp [hopen])
  · have hopen : q.closed = false := by simpa using fun h => hk (Or.inl h)
    simp [hopen]
  · have hopen : q.closed = false := by simpa using fun h => hk (Or.inl h)
    simp [hopen]

lemma prefix_add (q : WorkQueue κ) (k : κ) : q.queue <+: (q.add k).1.queue := by
  unfold add
  dsimp only
  split_ifs
  · exact List.prefix_rfl
  · exact List.prefix_rfl
  · exact List.prefix_append _ _

/-- Only an add that queues its key wakes anybody. -/
lemma add_queue_of_silent (h : (q.add k).2 = false) : (q.add k).1.queue = q.queue := by
  unfold add at h ⊢
  dsimp only at h ⊢
  split_ifs at h ⊢ <;> rfl

/-! ## Waiting for a deadline -/

lemma lookup_cons_eq_ite (e : κ × Nat) (rest : List (κ × Nat)) (k : κ) :
    (e :: rest).lookup k = if k = e.1 then some e.2 else rest.lookup k := by
  obtain ⟨i, d⟩ := e
  by_cases hk : k = i
  · simp [hk]
  · rw [List.lookup_cons, beq_false_of_ne hk, if_neg hk]

lemma lookup_eq_some_iff_mem {entries : List (κ × Nat)} (h : (entries.map Prod.fst).Nodup) {d : Nat} :
    entries.lookup k = some d ↔ (k, d) ∈ entries := by
  induction entries with
  | nil => simp
  | cons e rest ih =>
    obtain ⟨hi, hrest⟩ := List.nodup_cons.1 h
    rw [lookup_cons_eq_ite, List.mem_cons]
    split_ifs with hk
    · have hnot : (e.1, d) ∉ rest := fun hm => hi (List.mem_map.2 ⟨_, hm, rfl⟩)
      simp [hnot, Prod.ext_iff, hk, eq_comm]
    · simp [ih hrest, Prod.ext_iff, hk]

lemma lookup_filter_key (entries : List (κ × Nat)) (p : κ → Bool) (k : κ) :
    (entries.filter fun e => p e.1).lookup k = if p k then entries.lookup k else none := by
  induction entries with
  | nil => simp
  | cons e rest ih =>
    rw [List.filter_cons, lookup_cons_eq_ite]
    by_cases hk : k = e.1
    · subst hk
      by_cases hp : p e.1
      · simp [hp, lookup_cons_eq_ite]
      · simp [hp, ih]
    · by_cases hp : p e.1
      · simp [hp, lookup_cons_eq_ite, hk, ih]
      · simp [hp, hk, ih]

/-- A second deadline for a key only counts if it is the earlier one. -/
lemma lookup_await (q : WorkQueue κ) (k : κ) (deadline : Nat) (j : κ) :
    (q.await k deadline).waiting.lookup j =
      if j = k then some (min deadline ((q.waiting.lookup k).getD deadline)) else q.waiting.lookup j := by
  unfold await
  cases hk : q.waiting.lookup k with
  | none =>
    dsimp only
    rw [List.lookup_append, lookup_cons_eq_ite]
    split_ifs with hj
    · simp [hj, hk]
    · simp
  | some d =>
    dsimp only
    have hmap : ∀ entries : List (κ × Nat),
        (entries.map fun e => if e.1 = k then (k, min e.2 deadline) else e).lookup j =
          if j = k then (entries.lookup k).map (min deadline ·) else entries.lookup j := by
      intro entries
      induction entries with
      | nil => simp
      | cons e rest ih =>
        simp only [List.map_cons, lookup_cons_eq_ite, ih]
        by_cases he : e.1 = k
        · by_cases hj : j = k
          · simp [he, hj, Nat.min_comm]
          · simp [he, hj]
        · by_cases hj : j = k
          · simp [he, hj, Ne.symm he]
          · simp [he, hj]
    rw [hmap, hk]
    rfl

lemma keys_await (q : WorkQueue κ) (k : κ) (deadline : Nat) (h : (q.waiting.map Prod.fst).Nodup) :
    ((q.await k deadline).waiting.map Prod.fst).Nodup := by
  unfold await
  cases hk : q.waiting.lookup k with
  | none =>
    have hnot : k ∉ q.waiting.map Prod.fst := by
      intro hm
      obtain ⟨⟨i, d⟩, hmem, rfl⟩ := List.mem_map.1 hm
      rw [(lookup_eq_some_iff_mem h).2 hmem] at hk
      exact absurd hk (by simp)
    simpa using h.concat hnot
  | some d =>
    have hkeys : Prod.fst ∘ (fun e : κ × Nat => if e.1 = k then (k, min e.2 deadline) else e) = Prod.fst := by
      funext e
      by_cases he : e.1 = k <;> simp [he]
    simpa [hkeys] using h

/-! ## Promoting -/

/-- A delayed key is taken off and added. -/
def takeDue (q : WorkQueue κ) (k : κ) : WorkQueue κ :=
  ({ q with waiting := q.waiting.filter (·.1 ≠ k) }.add k).1

/-- The delayed keys that are due, in the order in which a look promotes them. -/
def dueKeys (q : WorkQueue κ) (now : Nat) : List κ :=
  (q.due now).map Prod.fst

lemma promote_eq (q : WorkQueue κ) (now : Nat) : q.promote now = (q.dueKeys now).foldl takeDue q := by
  rw [promote, dueKeys, List.foldl_map]
  rfl

section
variable (keys : List κ) (q : WorkQueue κ)

lemma closed_foldl_takeDue : (keys.foldl takeDue q).closed = q.closed := by
  induction keys generalizing q with
  | nil => rfl
  | cons k rest ih => exact (ih _).trans (add_closed _ k)

lemma waiting_foldl_takeDue :
    (keys.foldl takeDue q).waiting = q.waiting.filter fun e => e.1 ∉ keys := by
  induction keys generalizing q with
  | nil => simp
  | cons k rest ih =>
    rw [List.foldl_cons, ih, takeDue, add_waiting, List.filter_filter]
    refine List.filter_congr fun e _ => ?_
    simp [Bool.and_comm]

lemma mem_dirty_foldl_takeDue :
    j ∈ (keys.foldl takeDue q).dirty ↔ j ∈ q.dirty ∨ (j ∈ keys ∧ q.closed = false) := by
  induction keys generalizing q with
  | nil => simp
  | cons k rest ih =>
    rw [List.foldl_cons, ih, takeDue, mem_dirty_add, add_closed, List.mem_cons]
    tauto

lemma prefix_foldl_takeDue : q.queue <+: (keys.foldl takeDue q).queue := by
  induction keys generalizing q with
  | nil => exact List.prefix_rfl
  | cons k rest ih =>
    exact (prefix_add { q with waiting := q.waiting.filter (·.1 ≠ k) } k).trans (ih (takeDue q k))

end

omit [DecidableEq κ] in
lemma mem_due {now : Nat} {e : κ × Nat} : e ∈ q.due now ↔ e ∈ q.waiting ∧ e.2 ≤ now := by
  simp [due]

omit [DecidableEq κ] in
lemma mem_dueKeys_iff {now : Nat} : j ∈ q.dueKeys now ↔ ∃ d, (j, d) ∈ q.waiting ∧ d ≤ now := by
  simp only [dueKeys, List.mem_map, Prod.exists, exists_and_right, exists_eq_right, mem_due]

lemma mem_dueKeys {now : Nat} (h : (q.waiting.map Prod.fst).Nodup) :
    k ∈ q.dueKeys now ↔ ∃ d, q.waiting.lookup k = some d ∧ d ≤ now := by
  simp only [mem_dueKeys_iff, lookup_eq_some_iff_mem h]

lemma promote_closed (q : WorkQueue κ) (now : Nat) : (q.promote now).closed = q.closed := by
  rw [promote_eq, closed_foldl_takeDue]

lemma prefix_promote (q : WorkQueue κ) (now : Nat) : q.queue <+: (q.promote now).queue := by
  rw [promote_eq]
  exact prefix_foldl_takeDue _ q

lemma mem_dirty_promote {now : Nat} :
    j ∈ (q.promote now).dirty ↔
      j ∈ q.dirty ∨ ((∃ d ≤ now, (j, d) ∈ q.waiting) ∧ q.closed = false) := by
  simp only [promote_eq, mem_dirty_foldl_takeDue, mem_dueKeys_iff, and_comm]

lemma mem_waiting_promote {now : Nat} {e : κ × Nat} (h : e ∈ (q.promote now).waiting) :
    e ∈ q.waiting ∧ now < e.2 := by
  rw [promote_eq, waiting_foldl_takeDue, List.mem_filter] at h
  refine ⟨h.1, ?_⟩
  by_contra hdue
  have hmem : e.1 ∈ q.dueKeys now := mem_dueKeys_iff.2 ⟨e.2, h.1, Nat.not_lt.1 hdue⟩
  simp [hmem] at h

lemma lookup_promote_eq_ite (q : WorkQueue κ) (now : Nat) (k : κ) :
    (q.promote now).waiting.lookup k = if k ∈ q.dueKeys now then none else q.waiting.lookup k := by
  rw [promote_eq, waiting_foldl_takeDue, lookup_filter_key _ (fun i => i ∉ q.dueKeys now)]
  by_cases hk : k ∈ q.dueKeys now
  · simp [hk]
  · simp [hk]

/-- A look leaves exactly those delayed keys that are not due. -/
lemma lookup_promote (h : (q.waiting.map Prod.fst).Nodup) (now : Nat) (k : κ) :
    (q.promote now).waiting.lookup k = (q.waiting.lookup k).filter (now < ·) := by
  simp only [lookup_promote_eq_ite, mem_dueKeys h]
  cases hk : q.waiting.lookup k with
  | none => simp
  | some d =>
    by_cases hd : d ≤ now
    · simp [hd, Option.filter, Nat.not_lt.2 hd]
    · simp [hd, Option.filter, Nat.not_le.1 hd]

lemma keys_promote (h : (q.waiting.map Prod.fst).Nodup) (now : Nat) :
    ((q.promote now).waiting.map Prod.fst).Nodup := by
  rw [promote_eq, waiting_foldl_takeDue]
  exact h.sublist (List.filter_sublist.map _)

/-- Where nothing is due a look finds the queue as it is. -/
lemma promote_of_none_due {now : Nat} (h : ∀ e ∈ q.waiting, now < e.2) : q.promote now = q := by
  have hdue : q.due now = [] := List.eq_nil_iff_forall_not_mem.2 fun e he => by
    have hlate := h e (mem_due.1 he).1
    have hsoon := (mem_due.1 he).2
    omega
  rw [promote_eq, dueKeys, hdue]
  rfl

/-! ## Looking -/

lemma get_of_promote_cons {now : Nat} {rest : List κ} (h : (q.promote now).queue = k :: rest) :
    q.get now = (.key k, { q.promote now with
      queue := rest
      dirty := without (q.promote now).dirty k
      processing := withKey (q.promote now).processing k }) := by
  unfold get
  simp [h]

lemma get_of_promote_nil {now : Nat} (h : (q.promote now).queue = []) :
    q.get now = (if q.closed then .closed else .empty, q.promote now) := by
  unfold get
  simp [h, promote_closed]

lemma get_waiting (q : WorkQueue κ) (now : Nat) : (q.get now).2.waiting = (q.promote now).waiting := by
  cases hq : (q.promote now).queue with
  | nil => rw [get_of_promote_nil hq]
  | cons k rest => rw [get_of_promote_cons hq]

lemma get_closed (q : WorkQueue κ) (now : Nat) : (q.get now).2.closed = q.closed := by
  cases hq : (q.promote now).queue with
  | nil => rw [get_of_promote_nil hq, promote_closed]
  | cons k rest => rw [get_of_promote_cons hq, promote_closed]

lemma get_of_queue {rest : List κ} (h : q.queue = k :: rest) (now : Nat) :
    (q.get now).1 = .key k := by
  obtain ⟨new, hnew⟩ := prefix_promote q now
  rw [h, List.cons_append] at hnew
  rw [get_of_promote_cons hnew.symm]

/-! ## Ending -/

lemma done_dirty (q : WorkQueue κ) (k : κ) : (q.done k).1.dirty = q.dirty := by
  unfold done
  dsimp only
  split_ifs <;> rfl

lemma done_waiting (q : WorkQueue κ) (k : κ) : (q.done k).1.waiting = q.waiting := by
  unfold done
  dsimp only
  split_ifs <;> rfl

lemma done_closed (q : WorkQueue κ) (k : κ) : (q.done k).1.closed = q.closed := by
  unfold done
  dsimp only
  split_ifs <;> rfl

lemma done_queue (q : WorkQueue κ) (k : κ) :
    (q.done k).1.queue = q.queue ++ if k ∈ q.dirty then [k] else [] := by
  unfold done
  dsimp only
  split_ifs <;> simp

end Timetable.WorkQueue
