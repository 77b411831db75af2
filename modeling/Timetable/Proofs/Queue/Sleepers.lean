import Timetable.Proofs.Queue.Operations
import Timetable.Queue.Waiting

/-!
# Sleepers

The tasks that wait for a queue look when they are called, and when a timer rings. Between two looks anything
may happen to the queue, also without a call: a look of another task queues all keys that are due. The main
result is that no task sleeps while there is work for it. The scheduler of a lobby is one of the schedules
that are allowed here, and it lets all tasks come to rest.
-/

namespace Timetable

open WorkQueue

namespace WorkQueue
variable {κ : Type} [DecidableEq κ] {q : WorkQueue κ}

/-! ## Deadlines -/

omit [DecidableEq κ] in
lemma nextDeadline_le {t : Nat} (h : q.nextDeadline = some t) {e : κ × Nat} (he : e ∈ q.waiting) : t ≤ e.2 :=
  (List.min?_eq_some_iff.1 h).2 e.2 (List.mem_map.2 ⟨e, he, rfl⟩)

omit [DecidableEq κ] in
lemma mem_of_nextDeadline {t : Nat} (h : q.nextDeadline = some t) : ∃ e ∈ q.waiting, e.2 = t :=
  List.mem_map.1 (List.min?_eq_some_iff.1 h).1

omit [DecidableEq κ] in
lemma exists_nextDeadline {e : κ × Nat} (he : e ∈ q.waiting) : ∃ t, q.nextDeadline = some t := by
  cases ht : q.nextDeadline with
  | some t => exact ⟨t, rfl⟩
  | none =>
    have hnil := List.map_eq_nil_iff.1 (List.min?_eq_none_iff.1 ht)
    exact absurd he (hnil ▸ List.not_mem_nil)

lemma waiting_promote_sublist (q : WorkQueue κ) (now : Nat) : (q.promote now).waiting.Sublist q.waiting := by
  rw [promote_eq, waiting_foldl_takeDue]
  exact List.filter_sublist

/-! ## Silence -/

/-- Two queues between which nobody who waits can tell a difference. -/
structure SameFor (q q' : WorkQueue κ) : Prop where
  queue : q'.queue = q.queue
  processing : q'.processing = q.processing
  waiting : q'.waiting = q.waiting
  closed : q'.closed = q.closed

lemma add_silent {k : κ} (h : (q.add k).2 = false) : SameFor q (q.add k).1 :=
  ⟨add_queue_of_silent h, add_processing q k, add_waiting q k, add_closed q k⟩

lemma addAfter_silent {now : Nat} {k : κ} {delay : Nat} (h : (q.addAfter now k delay).2 = false) :
    SameFor q (q.addAfter now k delay).1 := by
  unfold addAfter at h ⊢
  split_ifs at h ⊢
  · exact add_silent h
  · exact ⟨rfl, rfl, rfl, rfl⟩

/-- A call that wakes nobody changes nothing for those who wait. -/
lemma call_silent {now : Nat} {a : Call κ} (h : (q.call now a).2 = false) : SameFor q (q.call now a).1 := by
  cases a with
  | add k => exact add_silent h
  | addAfter k delay => exact addAfter_silent h
  | addRateLimited k =>
    obtain ⟨hqueue, hprocessing, hwaiting, hclosed⟩ :=
      addAfter_silent (q := { q with failures := (q.failures.record k).2 }) h
    exact ⟨hqueue, hprocessing, hwaiting, hclosed⟩
  | forget k => exact ⟨rfl, rfl, rfl, rfl⟩
  | shutDown => exact absurd h (by simp [call, shutDown])

/-! ## Looks -/

/-- A look that finds nothing leaves an empty queue that is not closed. -/
lemma get_of_empty {now : Nat} (h : (q.get now).1 = .empty) :
    (q.get now).2.queue = [] ∧ (q.get now).2.closed = false := by
  cases hq : (q.promote now).queue with
  | cons k rest =>
    rw [get_of_promote_cons hq] at h
    exact absurd h (by simp)
  | nil =>
    rw [get_of_promote_nil hq] at h ⊢
    have hopen : q.closed = false := by
      by_contra hc
      simp [hc] at h
    exact ⟨hq, (promote_closed q now).trans hopen⟩

/-- A look does not drain a queue: a key that it takes is in work. -/
lemma get_of_not_drained (h : q.queue ≠ [] ∨ q.processing ≠ []) (now : Nat) :
    (q.get now).2.queue ≠ [] ∨ (q.get now).2.processing ≠ [] := by
  cases hq : (q.promote now).queue with
  | cons k rest =>
    rw [get_of_promote_cons hq]
    exact Or.inr (List.ne_nil_of_mem (mem_withKey.2 (Or.inr rfl)))
  | nil =>
    rw [get_of_promote_nil hq]
    have hempty : q.queue = [] := List.prefix_nil.1 (hq ▸ prefix_promote q now)
    exact Or.inr ((promote_processing q now).symm ▸ h.resolve_left (fun hne => hne hempty))

end WorkQueue

/-- A task falls asleep only if the queue is not drained. -/
lemma Drain.asleep_of_check {κ : Type} {q : WorkQueue κ} {d : Drain} (h : d.check q = .asleep) :
    d = .asleep ∨ q.queue ≠ [] ∨ q.processing ≠ [] := by
  cases d with
  | asleep => exact Or.inl rfl
  | returned => simp [check] at h
  | called =>
    right
    by_contra hnone
    obtain ⟨hqueue, hprocessing⟩ := not_or.1 hnone
    simp [check, isDrained, not_not.1 hqueue, not_not.1 hprocessing] at h

namespace Lobby
variable {κ ι : Type} [DecidableEq κ] [DecidableEq ι] {l l' : Lobby κ ι}

/-- One task looked. It may have begun to wait, if it found nothing. -/
structure Looked (l l' : Lobby κ ι) : Prop where
  now : l'.now = l.now
  ready : l'.ready = l.ready
  drains : l'.drains = l.drains
  queue : l'.queue = (l.queue.get l.now).2
  waits : ∀ w ∈ l'.waiters, w ∈ l.waiters ∨
    ((l.queue.get l.now).1 = .empty ∧ w.timer = l'.queue.nextDeadline)

omit [DecidableEq ι] in
lemma looked_look (l : Lobby κ ι) (id : ι) : Looked l (l.look id) := by
  unfold look
  split
  next queue hget =>
    refine ⟨rfl, rfl, rfl, by rw [hget], fun w hw => ?_⟩
    obtain hw | hw := List.mem_append.1 hw
    · exact Or.inl hw
    · exact Or.inr ⟨by rw [hget], by rw [List.mem_singleton.1 hw]⟩
  next answer queue hanswer hget =>
    exact ⟨rfl, rfl, rfl, by rw [hget], fun w hw => Or.inl hw⟩

omit [DecidableEq ι] in
lemma looked_lookFirst (l : Lobby κ ι) (id : ι) : Looked l (l.lookFirst id) := by
  unfold lookFirst
  split
  next queue hget =>
    refine ⟨rfl, rfl, rfl, by rw [hget], fun w hw => ?_⟩
    obtain rfl | hw := List.mem_cons.1 hw
    · exact Or.inr ⟨by rw [hget], rfl⟩
    · exact Or.inl hw
  next answer queue hanswer hget =>
    exact ⟨rfl, rfl, rfl, by rw [hget], fun w hw => Or.inl hw⟩

/-! ## Steps -/

/-- What may happen in a lobby: operations on the queue by anybody, tasks that begin to ask for a key and look
when they were called, tasks that wait for the drained queue, and the clock. Those who are called look in any
order, and a task may leave before it has an answer. -/
inductive Step (l : Lobby κ ι) : Lobby κ ι → Prop
  | call (a : Call κ) : Step l (l.accept (l.queue.call l.now a))
  | done (k : κ) : Step l (l.accept (l.queue.done k))
  | ask (id : ι) : Step l { l with ready := l.ready ++ [id] }
  | look (id : ι) (before after : List ι) (called : l.ready = before ++ id :: after) :
      Step l ({ l with ready := before ++ after }.look id)
  | lookFirst (id : ι) : Step l (l.lookFirst id)
  | drain : Step l ({ l with drains := l.drains ++ [Drain.called] }.accept l.queue.shutDown)
  | check (d : Drain) (before after : List Drain) (waits : l.drains = before ++ d :: after) :
      Step l { l with drains := before ++ d.check l.queue :: after }
  | pass (now : Nat) (later : l.now ≤ now) : Step l { l with now }
  | ring (rings : Waiter ι → Bool) (up : ∀ w ∈ l.waiters, rings w = true → l.isUp w = true) :
      Step l { l with
        ready := l.ready ++ (l.waiters.filter rings).map (·.id)
        waiters := l.waiters.filter fun w => !rings w }
  | leave (id : ι) : Step l { (l.collect id).2 with ready := l.ready.filter (· ≠ id) }

abbrev Runs : Lobby κ ι → Lobby κ ι → Prop :=
  Relation.ReflTransGen Step

def Reachable (policy : BackoffPolicy) : Lobby κ ι → Prop :=
  Runs (new policy)

omit [DecidableEq κ] [DecidableEq ι] in
lemma isUp_of_le {now : Nat} (later : l.now ≤ now) {w : Waiter ι}
    (hup : isUp { l with now } w = false) : l.isUp w = false := by
  simp only [isUp, Option.any_eq_false, decide_eq_false_iff_not, Nat.not_le] at hup ⊢
  exact fun t ht => Nat.lt_of_le_of_lt later (hup t ht)

/-- A task waits for a key with the right timer, unless the timer is up; and one waits for the drained queue
only while it is not. -/
structure Watchful (l : Lobby κ ι) : Prop where
  waits : ∀ w ∈ l.waiters, l.isUp w = false →
    l.queue.queue = [] ∧ l.queue.closed = false ∧ w.timer = l.queue.nextDeadline
  drains : .asleep ∈ l.drains → l.queue.queue ≠ [] ∨ l.queue.processing ≠ []

omit [DecidableEq κ] [DecidableEq ι] in
/-- As long as some timer is not up, nothing is due. -/
lemma Watchful.none_due (h : Watchful l) {w : Waiter ι} (hw : w ∈ l.waiters) (hup : l.isUp w = false) :
    ∀ e ∈ l.queue.waiting, l.now < e.2 := by
  intro e he
  obtain ⟨-, -, htimer⟩ := h.waits w hw hup
  obtain ⟨t, ht⟩ := exists_nextDeadline he
  have hle := nextDeadline_le ht he
  rw [isUp, htimer, ht] at hup
  have hlate : l.now < t := by simpa using hup
  omega

omit [DecidableEq κ] [DecidableEq ι] in
/-- Whoever sleeps is called unless the operation changes nothing for those who wait. -/
lemma Watchful.accept (h : Watchful l) {result : WorkQueue κ × Bool}
    (hsilent : result.2 = false → SameFor l.queue result.1) : Watchful (l.accept result) := by
  unfold Lobby.accept
  dsimp only
  split_ifs with hwakes
  · refine ⟨fun w hw => absurd hw List.not_mem_nil, fun hd => ?_⟩
    obtain ⟨d, -, hd⟩ := List.mem_map.1 hd
    cases d <;> simp [Drain.wake] at hd
  · obtain ⟨hqueue, hprocessing, hwaiting, hclosed⟩ := hsilent (by simpa using hwakes)
    refine ⟨fun w hw hup => ?_, fun hd => ?_⟩
    · obtain ⟨hempty, hopen, htimer⟩ := h.waits w hw hup
      exact ⟨hqueue.trans hempty, hclosed.trans hopen, by rw [htimer, nextDeadline, nextDeadline, hwaiting]⟩
    · simpa only [hqueue, hprocessing] using h.drains hd

omit [DecidableEq ι] in
lemma Watchful.looked (h : Watchful l) (hl : Looked l l') : Watchful l' := by
  refine ⟨fun w hw hup => ?_, fun hd => ?_⟩
  · obtain hw | ⟨hempty, htimer⟩ := hl.waits w hw
    · -- nothing is due, so the look changes nothing
      have hup' : l.isUp w = false := by rwa [isUp, hl.now] at hup
      obtain ⟨hqueue, hopen, htimer⟩ := h.waits w hw hup'
      have hsame : l.queue.promote l.now = l.queue := promote_of_none_due (h.none_due hw hup')
      rw [hl.queue, get_of_promote_nil (hsame.symm ▸ hqueue), hsame]
      exact ⟨hqueue, hopen, htimer⟩
    · obtain ⟨hqueue, hopen⟩ := get_of_empty hempty
      exact ⟨hl.queue ▸ hqueue, hl.queue ▸ hopen, htimer⟩
  · rw [hl.queue]
    exact get_of_not_drained (h.drains (hl.drains ▸ hd)) l.now

theorem Watchful.step (h : Watchful l) (hs : Step l l') : Watchful l' := by
  cases hs with
  | call a => exact h.accept call_silent
  | done k => exact h.accept (by simp [WorkQueue.done])
  | ask id => exact ⟨h.waits, h.drains⟩
  | look id before after called =>
    have hcalled : Watchful { l with ready := before ++ after } := ⟨h.waits, h.drains⟩
    exact hcalled.looked (looked_look _ id)
  | lookFirst id => exact h.looked (looked_lookFirst l id)
  | drain =>
    have hcalled : Watchful { l with drains := l.drains ++ [Drain.called] } := by
      refine ⟨h.waits, fun hd => h.drains ?_⟩
      simpa using hd
    refine hcalled.accept fun hsilent => ?_
    simp [WorkQueue.shutDown] at hsilent
  | check d before after waits =>
    refine ⟨h.waits, fun hd => ?_⟩
    obtain hd | hd := List.mem_append.1 hd
    · exact h.drains (waits ▸ List.mem_append_left _ hd)
    · obtain hd | hd := List.mem_cons.1 hd
      · obtain rfl | hfull := Drain.asleep_of_check hd.symm
        · exact h.drains (waits ▸ List.mem_append_right _ List.mem_cons_self)
        · exact hfull
      · exact h.drains (waits ▸ List.mem_append_right _ (List.mem_cons_of_mem _ hd))
  | pass now later =>
    exact ⟨fun w hw hup => h.waits w hw (isUp_of_le later hup), h.drains⟩
  | ring rings up => exact ⟨fun w hw => h.waits w (List.mem_of_mem_filter hw), h.drains⟩
  | leave id => exact ⟨fun w hw => h.waits w (List.mem_of_mem_filter hw), h.drains⟩

lemma Watchful.runs (h : Watchful l) (hr : Runs l l') : Watchful l' := by
  induction hr with
  | refl => exact h
  | tail _ hs ih => exact ih.step hs

lemma Watchful.of_reachable {policy : BackoffPolicy} (h : Reachable policy l) : Watchful l := by
  have hnew : Watchful (new policy : Lobby κ ι) := ⟨by simp [new], by simp [new]⟩
  exact hnew.runs h

/-! ## Rest -/

/-- Every task waits: none was called and has yet to look, and no timer is up. -/
structure AllWait (l : Lobby κ ι) : Prop where
  ready : l.ready = []
  timers : ∀ w ∈ l.waiters, l.isUp w = false
  drains : .called ∉ l.drains

/-- No task sleeps while there is work for it. -/
structure MissesNothing (l : Lobby κ ι) : Prop where
  /-- A task waits for a key only at an empty queue that is not closed. -/
  empty : ∀ w ∈ l.waiters, l.queue.queue = [] ∧ l.queue.closed = false
  /-- No delayed key is due. -/
  early : ∀ w ∈ l.waiters, ∀ e ∈ l.queue.waiting, l.now < e.2
  /-- The task looks again when the next delayed key is due. -/
  timer : ∀ w ∈ l.waiters, w.timer = l.queue.nextDeadline
  /-- It has a timer if some key is delayed, and the timer is up no later than the key is due. -/
  wakes : ∀ w ∈ l.waiters, ∀ e ∈ l.queue.waiting, ∃ t, w.timer = some t ∧ t ≤ e.2
  /-- A task waits for the drained queue only as long as a key is queued or in work. -/
  drains : ∀ d ∈ l.drains, d ≠ .returned → l.queue.queue ≠ [] ∨ l.queue.processing ≠ []

omit [DecidableEq κ] [DecidableEq ι] in
lemma Watchful.missesNothing (h : Watchful l) (hw : AllWait l) : MissesNothing l := by
  refine ⟨fun w hmem => ?_, fun w hmem => h.none_due hmem (hw.timers w hmem), fun w hmem => ?_,
    fun w hmem e he => ?_, fun d hmem hd => h.drains ?_⟩
  · obtain ⟨hqueue, hopen, -⟩ := h.waits w hmem (hw.timers w hmem)
    exact ⟨hqueue, hopen⟩
  · exact (h.waits w hmem (hw.timers w hmem)).2.2
  · obtain ⟨t, ht⟩ := exists_nextDeadline he
    exact ⟨t, (h.waits w hmem (hw.timers w hmem)).2.2.trans ht, nextDeadline_le ht he⟩
  · cases d with
    | called => exact absurd hmem hw.drains
    | asleep => exact hmem
    | returned => exact absurd rfl hd

/-- Whatever was done with the queue, and in whatever order, a task that sleeps when all wait has nothing to
do. -/
theorem reachable_missesNothing {policy : BackoffPolicy} (h : Reachable policy l) (hw : AllWait l) :
    MissesNothing l :=
  (Watchful.of_reachable h).missesNothing hw

/-! ## The scheduler -/

omit [DecidableEq ι] in
lemma look_with_ready (l : Lobby κ ι) (id : ι) (ready : List ι) :
    { l with ready }.look id = { l.look id with ready } := by
  unfold look
  dsimp only
  split <;> simp_all

/-- All who were called look, one after the other. -/
lemma looks_runs (l : Lobby κ ι) : Runs l (l.ready.foldl look { l with ready := [] }) := by
  generalize hready : l.ready = ready
  induction ready generalizing l with
  | nil =>
    have hsame : { l with ready := [] } = l := by rw [← hready]
    rw [List.foldl_nil, hsame]
  | cons id rest ih =>
    have hlook : Step l ({ l with ready := rest }.look id) := .look id [] rest hready
    have hrest := ih _ (looked_look { l with ready := rest } id).ready
    rw [← look_with_ready] at hrest
    exact hrest.head hlook

lemma checks_runs (l : Lobby κ ι) : Runs l { l with drains := l.drains.map (.check l.queue) } := by
  suffices h : ∀ (checked rest : List Drain) (l : Lobby κ ι), l.drains = checked ++ rest →
      Runs l { l with drains := checked ++ rest.map (.check l.queue) } from h [] l.drains l rfl
  intro checked rest
  induction rest generalizing checked with
  | nil =>
    intro l hdrains
    have hsame : { l with drains := checked ++ ([] : List Drain).map (.check l.queue) } = l := by
      rw [List.map_nil, ← hdrains]
    rw [hsame]
  | cons d rest ih =>
    intro l hdrains
    have hcheck : Step l { l with drains := checked ++ d.check l.queue :: rest } :=
      .check d checked rest hdrains
    have hrest := ih (checked ++ [d.check l.queue]) { l with drains := checked ++ d.check l.queue :: rest }
      (by rw [List.append_assoc, List.singleton_append])
    rw [List.append_assoc] at hrest
    exact hrest.head hcheck

lemma settle_runs (l : Lobby κ ι) : Runs l l.settle :=
  (looks_runs l).trans (checks_runs _)

omit [DecidableEq ι] in
/-- What every look keeps is kept when all look. -/
lemma looks_keep {P : Lobby κ ι → Prop} (hlook : ∀ l l', Looked l l' → P l → P l') (ready : List ι)
    (h : P l) : P (ready.foldl look l) := by
  induction ready generalizing l with
  | nil => exact h
  | cons id rest ih => exact ih (hlook _ _ (looked_look l id) h)

section
omit [DecidableEq ι]

lemma Looked.late (h : Looked l l') : ∀ e ∈ l'.queue.waiting, l.now < e.2 := by
  rw [h.queue, get_waiting]
  exact fun e he => (mem_waiting_promote he).2

lemma Looked.waiting (h : Looked l l') : l'.queue.waiting.Sublist l.queue.waiting := by
  rw [h.queue, get_waiting]
  exact waiting_promote_sublist l.queue l.now

lemma Looked.timers (h : Looked l l') (htimers : ∀ w ∈ l.waiters, l.isUp w = false) :
    ∀ w ∈ l'.waiters, l'.isUp w = false := by
  intro w hw
  rw [isUp, h.now]
  obtain hw | ⟨-, htimer⟩ := h.waits w hw
  · exact htimers w hw
  · rw [htimer, Option.any_eq_false]
    intro t ht
    obtain ⟨e, he, rfl⟩ := mem_of_nextDeadline ht
    simpa using h.late e he

lemma settle_ready (l : Lobby κ ι) : l.settle.ready = [] :=
  looks_keep (P := fun m => m.ready = []) (fun _ _ hl h => hl.ready.trans h) l.ready rfl

lemma looks_waiting (ready : List ι) (l : Lobby κ ι) :
    (ready.foldl look l).queue.waiting.Sublist l.queue.waiting :=
  looks_keep (P := fun m => m.queue.waiting.Sublist l.queue.waiting)
    (fun _ _ hl h => hl.waiting.trans h) ready (List.Sublist.refl _)

lemma settle_waiting (l : Lobby κ ι) : l.settle.queue.waiting.Sublist l.queue.waiting :=
  looks_waiting l.ready { l with ready := [] }

/-- When somebody was called, what is still delayed is not due. -/
lemma settle_late (l : Lobby κ ι) (hready : l.ready ≠ []) : ∀ e ∈ l.settle.queue.waiting, l.now < e.2 := by
  obtain ⟨id, rest, hcalled⟩ := List.exists_cons_of_ne_nil hready
  have hfirst := (looked_look { l with ready := [] } id).late
  intro e he
  refine hfirst e ((looks_waiting rest _).subset ?_)
  rwa [settle, hcalled, List.foldl_cons] at he

/-- Once all who were called have looked, all wait. -/
lemma settle_allWait (l : Lobby κ ι) (htimers : ∀ w ∈ l.waiters, l.isUp w = false) : AllWait l.settle := by
  refine ⟨settle_ready l, ?_, ?_⟩
  · exact looks_keep (P := fun m => ∀ w ∈ m.waiters, m.isUp w = false) (fun _ _ hl => hl.timers) l.ready
      htimers
  · intro hd
    obtain ⟨d, -, hd⟩ := List.mem_map.1 hd
    cases d with
    | called =>
      simp only [Drain.check] at hd
      split_ifs at hd
    | asleep => simp [Drain.check] at hd
    | returned => simp [Drain.check] at hd

lemma fire_allWait (l : Lobby κ ι) : AllWait l.fire :=
  settle_allWait l.ring fun w hw => by
    have hup : (!l.isUp w) = true := (List.mem_filter.1 hw).2
    show l.isUp w = false
    simpa using hup

end

lemma fire_runs (l : Lobby κ ι) : Runs l l.fire :=
  (settle_runs l.ring).head (.ring l.isUp fun _ _ hup => hup)

/-! ## The clock -/

section
omit [DecidableEq κ] [DecidableEq ι]

lemma mem_of_nextTimer {t : Nat} (h : l.nextTimer = some t) : ∃ w ∈ l.waiters, w.timer = some t :=
  List.mem_filterMap.1 (List.min?_eq_some_iff.1 h).1

lemma nextTimer_le {w : Waiter ι} (hw : w ∈ l.waiters) {t : Nat} (ht : w.timer = some t) :
    ∃ first, l.nextTimer = some first ∧ first ≤ t := by
  have hmem : t ∈ l.waiters.filterMap (·.timer) := List.mem_filterMap.2 ⟨w, hw, ht⟩
  cases hfirst : l.nextTimer with
  | some first => exact ⟨first, rfl, (List.min?_eq_some_iff.1 hfirst).2 t hmem⟩
  | none => exact absurd hmem (List.min?_eq_none_iff.1 hfirst ▸ List.not_mem_nil)

/-- Up to the next timer time passes without a call. -/
lemma AllWait.pass (h : AllWait l) {target : Nat} (hlate : ∀ t, l.nextTimer = some t → target < t) :
    AllWait { l with now := max l.now target } := by
  refine ⟨h.ready, fun w hw => ?_, h.drains⟩
  have hup := h.timers w hw
  simp only [isUp, Option.any_eq_false, decide_eq_false_iff_not, Nat.not_le] at hup ⊢
  intro t ht
  obtain ⟨first, hfirst, hle⟩ := nextTimer_le hw ht
  have hpassed := hlate first hfirst
  have hnow := hup t ht
  omega

end

omit [DecidableEq ι] in
/-- When a timer rings, a delayed key is taken off. -/
lemma fire_waiting_lt (h : Watchful l) (hw : AllWait l) {t : Nat} (ht : l.nextTimer = some t) :
    (fire { l with now := max l.now t }).queue.waiting.length < l.queue.waiting.length := by
  obtain ⟨w, hmem, htimer⟩ := mem_of_nextTimer ht
  have hdeadline : l.queue.nextDeadline = some t :=
    (h.waits w hmem (hw.timers w hmem)).2.2.symm.trans htimer
  obtain ⟨e, he, hdue⟩ := mem_of_nextDeadline hdeadline
  have hup : isUp { l with now := max l.now t } w = true := by
    simp only [isUp, htimer, Option.any_some, decide_eq_true_eq]
    exact Nat.le_max_right _ _
  have hcalled : (ring { l with now := max l.now t }).ready ≠ [] :=
    List.ne_nil_of_mem (List.mem_append_right _ (List.mem_map.2 ⟨w, List.mem_filter.2 ⟨hmem, hup⟩, rfl⟩))
  have hsub : (fire { l with now := max l.now t }).queue.waiting.Sublist l.queue.waiting :=
    settle_waiting (ring { l with now := max l.now t })
  by_contra hlong
  have hsame := hsub.eq_of_length_le (Nat.not_lt.1 hlong)
  have hlate : max l.now t < e.2 := settle_late _ hcalled e (hsame ▸ he)
  omega

/-- When the next timer rings, those whom it calls look. -/
lemma tick_spec (h : Watchful l) (hw : AllWait l) {t : Nat} (ht : l.nextTimer = some t) :
    Runs l (fire { l with now := max l.now t }) ∧ AllWait (fire { l with now := max l.now t }) ∧
      (fire { l with now := max l.now t }).queue.waiting.length < l.queue.waiting.length :=
  ⟨(fire_runs _).head (.pass _ (Nat.le_max_left _ _)), fire_allWait _, fire_waiting_lt h hw ht⟩

lemma pass_spec (hw : AllWait l) {target : Nat} (hlate : ∀ t, l.nextTimer = some t → target < t) :
    Runs l { l with now := max l.now target } ∧ AllWait { l with now := max l.now target } :=
  ⟨.single (.pass _ (Nat.le_max_left _ _)), hw.pass hlate⟩

/-- The steps suffice, because every timer takes a delayed key off. -/
lemma advance_spec (steps target : Nat) (h : Watchful l) (hw : AllWait l)
    (hsteps : l.queue.waiting.length < steps) :
    Runs l (advance steps target l) ∧ AllWait (advance steps target l) := by
  induction steps generalizing l with
  | zero => omega
  | succ steps ih =>
    unfold advance
    cases ht : l.nextTimer with
    | none => exact pass_spec hw (by simp [ht])
    | some t =>
      dsimp only
      split_ifs with hle
      · obtain ⟨hruns, hwait, hfewer⟩ := tick_spec h hw ht
        obtain ⟨hrest, hend⟩ := ih (h.runs hruns) hwait (by omega)
        exact ⟨hruns.trans hrest, hend⟩
      · exact pass_spec hw (by simpa [ht] using hle)

lemma waitFor_spec (id : ι) (steps target : Nat) (h : Watchful l) (hw : AllWait l)
    (hsteps : l.queue.waiting.length < steps) :
    Runs l (waitFor id steps target l) ∧ AllWait (waitFor id steps target l) := by
  induction steps generalizing l with
  | zero => omega
  | succ steps ih =>
    unfold waitFor
    split_ifs with hanswer
    · exact ⟨.refl, hw⟩
    · cases ht : l.nextTimer with
      | none => exact pass_spec hw (by simp [ht])
      | some t =>
        dsimp only
        split_ifs with hle
        · obtain ⟨hruns, hwait, hfewer⟩ := tick_spec h hw ht
          obtain ⟨hrest, hend⟩ := ih (h.runs hruns) hwait (by omega)
          exact ⟨hruns.trans hrest, hend⟩
        · exact pass_spec hw (by simpa [ht] using hle)

/-! ## Turns -/

def perform (l : Lobby κ ι) (a : Call κ) : Lobby κ ι :=
  l.after (l.queue.call l.now a)

/-- A turn of the scheduler: an operation on the queue, a task that asks for a key, one that leaves, one that
waits for the drained queue, and the clock that moves on. All who are called look before the turn ends. -/
inductive Turn (l : Lobby κ ι) : Lobby κ ι → Prop
  | call (a : Call κ) : Turn l (l.perform a)
  | done (k : κ) : Turn l (l.after (l.queue.done k))
  | spawn (id : ι) : Turn l (l.spawn id)
  | collect (id : ι) : Turn l (l.collect id).2
  | drain : Turn l l.drain
  | sleepUntil (target : Nat) : Turn l (l.sleepUntil target)
  | get (id : ι) (span : Nat) : Turn l (l.get id span).2

omit [DecidableEq ι] in
lemma AllWait.looked (hw : AllWait l) (hl : Looked l l') : AllWait l' :=
  ⟨hl.ready.trans hw.ready, hl.timers hw.timers, hl.drains ▸ hw.drains⟩

omit [DecidableEq κ] [DecidableEq ι] in
lemma accept_timers (hw : ∀ w ∈ l.waiters, l.isUp w = false) (result : WorkQueue κ × Bool) :
    ∀ w ∈ (l.accept result).waiters, (l.accept result).isUp w = false := by
  unfold accept
  dsimp only
  split_ifs
  · exact fun w hmem => absurd hmem List.not_mem_nil
  · exact hw

lemma collect_spec (hw : AllWait l) (id : ι) : Runs l (l.collect id).2 ∧ AllWait (l.collect id).2 := by
  have hleave : { (l.collect id).2 with ready := l.ready.filter (· ≠ id) } = (l.collect id).2 := by
    simp [collect, hw.ready]
  refine ⟨.single (hleave ▸ .leave id), hw.ready, fun w hmem => ?_, hw.drains⟩
  exact hw.timers w (List.mem_of_mem_filter hmem)

/-- A turn is one of the runs that are possible, and at its end all wait again. -/
theorem turn_spec (h : Watchful l) (hw : AllWait l) (ht : Turn l l') : Runs l l' ∧ AllWait l' := by
  cases ht with
  | call a =>
    exact ⟨(settle_runs _).head (.call a), settle_allWait _ (accept_timers hw.timers _)⟩
  | done k =>
    exact ⟨(settle_runs _).head (.done k), settle_allWait _ (accept_timers hw.timers _)⟩
  | spawn id =>
    have hlook : Step { l with ready := l.ready ++ [id] } (l.look id) := by
      have hstep := Step.look (l := { l with ready := l.ready ++ [id] }) id l.ready [] rfl
      rwa [List.append_nil] at hstep
    exact ⟨.tail (.single (.ask id)) hlook, hw.looked (looked_look l id)⟩
  | collect id => exact collect_spec hw id
  | drain =>
    have htimers := accept_timers (l := { l with drains := l.drains ++ [Drain.called] }) hw.timers
    exact ⟨(settle_runs _).head .drain, settle_allWait _ (htimers _)⟩
  | sleepUntil target => exact advance_spec _ target h hw (Nat.lt_succ_self _)
  | get id span =>
    have hfirst := looked_lookFirst l id
    have hfewer := hfirst.waiting.length_le
    obtain ⟨hruns, hwait⟩ := waitFor_spec id (l.queue.waiting.length + 2) (l.now + span)
      (h.looked hfirst) (hw.looked hfirst) (by omega)
    obtain ⟨hleave, hwait'⟩ := collect_spec hwait id
    exact ⟨(hruns.trans hleave).head (.lookFirst id), hwait'⟩

/-- Under the scheduler no task ever sleeps while there is work for it. -/
theorem turns_missNothing {policy : BackoffPolicy} (h : Relation.ReflTransGen Turn (new policy) l) :
    Reachable policy l ∧ AllWait l ∧ MissesNothing l := by
  have hreach : Reachable policy l ∧ AllWait l := by
    induction h with
    | refl => exact ⟨.refl, rfl, by simp [new], by simp [new]⟩
    | tail _ ht ih =>
      obtain ⟨hruns, hwait⟩ := turn_spec (Watchful.of_reachable ih.1) ih.2 ht
      exact ⟨ih.1.trans hruns, hwait⟩
  exact ⟨hreach.1, hreach.2, (Watchful.of_reachable hreach.1).missesNothing hreach.2⟩

/-- Two tasks wait for key 8; the third one left. Before key 8 was added they had a timer for key 7. -/
def dozing : Lobby Nat Nat :=
  (((((new .standard).spawn 1).perform (.addAfter 7 50)).spawn 2).spawn 3 |>.perform (.addAfter 8 20))
    |>.collect 3 |>.2

/-- A task has key 1, and another waits until it is done with it. -/
def lingering : Lobby Nat Nat :=
  (((new .standard).perform (.add 1)).spawn 1).drain

lemma dozing_reachable : Reachable .standard dozing :=
  (turns_missNothing (.tail (.tail (.tail (.tail (.tail (.tail .refl (.spawn 1)) (.call (.addAfter 7 50)))
    (.spawn 2)) (.spawn 3)) (.call (.addAfter 8 20))) (.collect 3))).1

lemma lingering_reachable : Reachable .standard lingering :=
  (turns_missNothing (.tail (.tail (.tail .refl (.call (.add 1))) (.spawn 1)) .drain)).1

/-- Both kinds of sleepers wait for something. -/
theorem missesNothing_dozing_lingering :
    (Reachable .standard dozing ∧ dozing.waiters = [⟨1, some 20⟩, ⟨2, some 20⟩] ∧ AllWait dozing ∧
      MissesNothing dozing) ∧
    Reachable .standard lingering ∧ lingering.drains = [.asleep] ∧ AllWait lingering ∧
      MissesNothing lingering := by
  have hdozing : AllWait dozing := ⟨by decide +kernel, by decide +kernel, by decide +kernel⟩
  have hlingering : AllWait lingering := ⟨by decide +kernel, by decide +kernel, by decide +kernel⟩
  exact ⟨⟨dozing_reachable, by decide +kernel, hdozing, reachable_missesNothing dozing_reachable hdozing⟩,
    lingering_reachable, by decide +kernel, hlingering,
    reachable_missesNothing lingering_reachable hlingering⟩

end Lobby

end Timetable
