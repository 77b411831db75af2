import Mathlib.Algebra.Group.Nat.Defs
import Timetable.Controller.Pool
import Timetable.Proofs.Queue.Backoff
import Timetable.Proofs.Queue.Deadlines

/-!
# How failed passes are retried

A workroom is a queue with any number of workers, each at some duty with the key that it holds, and with the outcomes
of the passes that have ended. The failures that the queue counts are those since the last pass that succeeded, and
whatever the outcome calls for is arranged before the key is given back: a retry after a delay that doubles with every
failure, or the next pass after the time that the last one asked for.
-/

namespace Timetable

namespace Outcome

/-- The pass is retried. -/
def fails : Outcome → Bool
  | finished _ => false
  | failed _ | aborted => true

/-- The failures since the last success, where the latest outcome comes first. -/
def streak (past : List Outcome) : Nat :=
  (past.takeWhile fails).length

/-- How long after a pass its key may be left alone, if that is limited. Before the pass there were these
outcomes. -/
def allowance (policy : BackoffPolicy) (before : List Outcome) : Outcome → Option Nat
  | finished .done => none
  | finished (.requeueAfter delay) => some delay
  | failed _ | aborted => some (min (policy.base * 2 ^ streak before) policy.max)

variable {o : Outcome} {past : List Outcome}

lemma streak_of_fails (h : o.fails = true) : streak (o :: past) = streak past + 1 := by
  rw [streak, List.takeWhile_cons_of_pos h]
  rfl

lemma streak_of_not_fails (h : o.fails = false) : streak (o :: past) = 0 := by
  rw [streak, List.takeWhile_cons_of_neg (by simp [h])]
  rfl

lemma allowance_of_fails (policy : BackoffPolicy) (h : o.fails = true) :
    allowance policy past o = some (min (policy.base * 2 ^ streak past) policy.max) := by
  cases o with
  | finished a => simp [fails] at h
  | failed e => rfl
  | aborted => rfl

end Outcome

/-! ## Keys that are taken up in time -/

namespace WorkQueue
variable {κ : Type} [DecidableEq κ] {q : WorkQueue κ} {j k : κ} {deadline now : Nat}

/-- The key is to be handed out, or it waits and its deadline comes in time. -/
def Awaited (q : WorkQueue κ) (k : κ) (deadline : Nat) : Prop :=
  k ∈ q.dirty ∨ ∃ d ≤ deadline, q.waiting.lookup k = some d

lemma Awaited.add (h : q.Awaited k deadline) (j : κ) : (q.add j).1.Awaited k deadline := by
  obtain hk | hk := h
  · exact Or.inl (mem_dirty_add.2 (Or.inl hk))
  · right
    rwa [add_waiting]

lemma mem_dirty_addAfter (h : k ∈ q.dirty) (now : Nat) (j : κ) (delay : Nat) :
    k ∈ (q.addAfter now j delay).1.dirty := by
  unfold addAfter
  split_ifs
  · exact mem_dirty_add.2 (Or.inl h)
  · exact h
  · rwa [(await_queue q j _).2.1]

lemma Awaited.addAfter (h : q.Awaited k deadline) (now : Nat) (j : κ) (delay : Nat) :
    (q.addAfter now j delay).1.Awaited k deadline := by
  obtain hk | ⟨d, hd, hk⟩ := h
  · exact Or.inl (mem_dirty_addAfter hk now j delay)
  · obtain ⟨e, he, hlookup⟩ := exists_lookup_addAfter hk now j delay
    exact Or.inr ⟨e, he.trans hd, hlookup⟩

/-- A look may promote the key. It is only lost if it is handed out. -/
lemma Awaited.get (h : q.Awaited k deadline) (hopen : q.closed = false)
    (hnodup : (q.waiting.map Prod.fst).Nodup) (hk : (q.get now).1 ≠ .key k) :
    (q.get now).2.Awaited k deadline := by
  obtain ⟨handed, hhanded, hpromotes⟩ := promotes_get hopen hnodup now
  have hother : k ∉ handed.toList := by
    intro hmem
    rw [Option.mem_toList] at hmem
    rw [hhanded, hmem] at hk
    exact hk rfl
  by_cases hdue : k ∈ q.dueKeys now
  · exact Or.inl ((hpromotes.dirty k).2 ⟨Or.inr hdue, hother⟩)
  · obtain hd | ⟨d, hd, hlookup⟩ := h
    · exact Or.inl ((hpromotes.dirty k).2 ⟨Or.inl hd, hother⟩)
    · right
      refine ⟨d, hd, ?_⟩
      rw [hpromotes.waiting, if_neg hdue, hlookup]

lemma Awaited.done (h : q.Awaited k deadline) (j : κ) : (q.done j).1.Awaited k deadline := by
  unfold Awaited
  rwa [done_dirty, done_waiting]

lemma awaited_addAfter (hopen : q.closed = false) (now : Nat) (k : κ) (delay : Nat) :
    (q.addAfter now k delay).1.Awaited k (now + delay) := by
  unfold WorkQueue.addAfter
  split_ifs with hdelay hclosed
  · exact Or.inl (mem_dirty_add.2 (Or.inr ⟨rfl, hopen⟩))
  · simp [hopen] at hclosed
  · right
    rw [lookup_await, if_pos rfl]
    exact ⟨_, min_le_left _ _, rfl⟩

lemma Awaited.mono {later : Nat} (h : q.Awaited k deadline) (hle : deadline ≤ later) : q.Awaited k later := by
  obtain hk | ⟨d, hd, hk⟩ := h
  · exact Or.inl hk
  · exact Or.inr ⟨d, hd.trans hle, hk⟩

/-! ## What leaves the failures alone -/

section
variable (q : WorkQueue κ)

lemma add_failures (k : κ) : (q.add k).1.failures = q.failures := by
  unfold WorkQueue.add
  dsimp only
  split_ifs
  · rfl
  · rfl
  · rfl

lemma addAfter_failures (now : Nat) (k : κ) (delay : Nat) :
    (q.addAfter now k delay).1.failures = q.failures := by
  unfold WorkQueue.addAfter
  split_ifs
  · exact add_failures q k
  · rfl
  · unfold await
    dsimp only
    split
    · rfl
    · rfl

lemma get_failures (now : Nat) : (q.get now).2.failures = q.failures := by
  have hpromote : (q.promote now).failures = q.failures :=
    promote_induction (P := fun p => p.failures = q.failures) q now rfl
      fun _ k hp => (add_failures _ k).trans hp
  obtain ⟨k, rest, -, hget⟩ | ⟨answer, -, hget⟩ := get_cases q now
  · rw [hget]
    exact hpromote
  · rw [hget]
    exact hpromote

lemma done_failures (k : κ) : (q.done k).1.failures = q.failures := by
  unfold WorkQueue.done
  dsimp only
  split_ifs
  · rfl
  · rfl

end

/-! ## Queues in operation -/

/-- The queue is open and exclusive, and each key waits for one deadline. -/
structure Operates (policy : BackoffPolicy) (q : WorkQueue κ) : Prop where
  isOpen : q.closed = false
  exclusive : q.Exclusive
  keys_nodup : (q.waiting.map Prod.fst).Nodup
  policy_eq : q.failures.policy = policy

namespace Operates
variable {policy : BackoffPolicy}

omit [DecidableEq κ] in
lemma new (policy : BackoffPolicy) : Operates policy (WorkQueue.new policy : WorkQueue κ) :=
  ⟨rfl, .new policy, List.nodup_nil, rfl⟩

omit [DecidableEq κ] in
lemma with_failures (h : Operates policy q) {failures : Failures κ} (hp : failures.policy = q.failures.policy) :
    Operates policy { q with failures } :=
  ⟨h.isOpen, ⟨h.exclusive.nodup, h.exclusive.queued_iff⟩, h.keys_nodup, hp.trans h.policy_eq⟩

lemma add (h : Operates policy q) (k : κ) : Operates policy (q.add k).1 :=
  ⟨(add_closed q k).trans h.isOpen, h.exclusive.add k, add_waiting q k ▸ h.keys_nodup,
    (add_failures q k).symm ▸ h.policy_eq⟩

lemma addAfter (h : Operates policy q) (now : Nat) (k : κ) (delay : Nat) :
    Operates policy (q.addAfter now k delay).1 := by
  refine ⟨?_, h.exclusive.addAfter now k delay, ?_, (addAfter_failures q now k delay).symm ▸ h.policy_eq⟩
  · unfold WorkQueue.addAfter await
    split_ifs
    · exact (add_closed q k).trans h.isOpen
    · exact h.isOpen
    · split
      · exact h.isOpen
      · exact h.isOpen
  · unfold WorkQueue.addAfter
    split_ifs
    · exact add_waiting q k ▸ h.keys_nodup
    · exact h.keys_nodup
    · exact keys_await q k _ h.keys_nodup

lemma get (h : Operates policy q) (now : Nat) : Operates policy (q.get now).2 :=
  ⟨(get_closed q now).trans h.isOpen, h.exclusive.get now, get_waiting q now ▸ keys_promote h.keys_nodup now,
    (get_failures q now).symm ▸ h.policy_eq⟩

lemma done (h : Operates policy q) (hk : k ∈ q.processing) : Operates policy (q.done k).1 :=
  ⟨(done_closed q k).trans h.isOpen, h.exclusive.done hk, done_waiting q k ▸ h.keys_nodup,
    (done_failures q k).symm ▸ h.policy_eq⟩

end Operates

end WorkQueue

/-! ## Workrooms -/

/-- What its worker still has to do with a key. -/
inductive Duty
  /-- No worker holds the key. -/
  | idle
  /-- The pass is under way. -/
  | passing
  | ended (o : Outcome) (time : Nat)
  /-- The failures of the key are counted or forgotten, and it is to be added with a delay. -/
  | adding (ended delay : Nat)
  /-- All that is left is to give the key back. -/
  | leaving (ended asked : Nat)
  deriving DecidableEq

/-- A queue with its workers. Each key has a duty and the outcomes of its passes, of which the latest comes first. -/
structure Workroom where
  queue : WorkQueue Key
  now : Nat
  duty : Key → Duty
  past : Key → List Outcome

open WorkQueue Outcome

namespace Duty

/-- What a worker does after a pass that succeeded and whose failures are forgotten. -/
def next (ended now : Nat) : Action → Duty
  | .done => leaving ended now
  | .requeueAfter delay => adding ended delay

/-- The outcomes that the failures of a key account for. The last one does not count yet if nothing was made of
it. -/
def counted (past : List Outcome) : Duty → List Outcome
  | ended _ _ => past.tail
  | _ => past

/-- What is known at a duty: which outcome is dealt with, and that the key is added with a delay that suits it. -/
def Arranged (policy : BackoffPolicy) (q : WorkQueue Key) (now : Nat) (k : Key) (past : List Outcome) : Duty → Prop
  | idle | passing => True
  | ended o time => time ≤ now ∧ ∃ before, past = o :: before
  | adding time delay => time ≤ now ∧ ∃ o before, past = o :: before ∧
      ∀ limit, o.allowance policy before = some limit → delay ≤ limit
  | leaving time asked => time ≤ asked ∧ asked ≤ now ∧ ∃ o before, past = o :: before ∧
      ∀ limit, o.allowance policy before = some limit → q.Awaited k (asked + limit)

end Duty

namespace Workroom
variable {policy : BackoffPolicy} {s s' : Workroom} {who : Option Key} {j k : Key}

def new (policy : BackoffPolicy) : Workroom :=
  ⟨.new policy, 0, fun _ => .idle, fun _ => []⟩

def move (s : Workroom) (k : Key) (queue : WorkQueue Key) (duty : Duty) : Workroom :=
  { s with queue, duty := Function.update s.duty k duty }

/-- One step, by the worker that holds a key or by nobody in particular. Workers do one thing at a time with the queue,
and events, other workers and the clock come in between. -/
inductive Step (s : Workroom) : Option Key → Workroom → Prop
  | tick (later : Nat) (h : s.now ≤ later) : Step s none { s with now := later }
  | event (k : Key) : Step s none { s with queue := (s.queue.add k).1 }
  | lookInVain (answer : Look Key) (queue : WorkQueue Key) (got : s.queue.get s.now = (answer, queue))
      (nothing : ∀ k, answer ≠ .key k) : Step s none { s with queue }
  | handOut (k : Key) (queue : WorkQueue Key) (got : s.queue.get s.now = (.key k, queue)) :
      Step s (some k) (s.move k queue .passing)
  | finish (k : Key) (o : Outcome) (passing : s.duty k = .passing) :
      Step s (some k) { s.move k s.queue (.ended o s.now) with
        past := Function.update s.past k (o :: s.past k) }
  /-- A pass that succeeded ends the count of failures. -/
  | forget (k : Key) (a : Action) (time : Nat) (ended : s.duty k = .ended (.finished a) time) :
      Step s (some k) (s.move k (s.queue.forget k) (.next time s.now a))
  | count (k : Key) (o : Outcome) (time : Nat) (ended : s.duty k = .ended o time) (fails : o.fails = true) :
      Step s (some k) (s.move k { s.queue with failures := (s.queue.failures.record k).2 }
        (.adding time (s.queue.failures.record k).1))
  /-- The clock was read before the key is added. -/
  | add (k : Key) (time delay asked : Nat) (adding : s.duty k = .adding time delay) (hasked : time ≤ asked)
      (hnow : asked ≤ s.now) : Step s (some k) (s.move k (s.queue.addAfter asked k delay).1 (.leaving time asked))
  | done (k : Key) (time asked : Nat) (leaving : s.duty k = .leaving time asked) :
      Step s (some k) (s.move k (s.queue.done k).1 .idle)

def Reachable (policy : BackoffPolicy) : Workroom → Prop :=
  Relation.ReflTransGen (fun s s' => ∃ who, Step s who s') (new policy)

/-- The queue and the workers agree about a key. -/
structure Fits (policy : BackoffPolicy) (q : WorkQueue Key) (now : Nat) (k : Key) (duty : Duty)
    (past : List Outcome) : Prop where
  held_iff : k ∈ q.processing ↔ duty ≠ .idle
  counts : q.requeues k = min (streak (duty.counted past)) Text.max32
  arranged : duty.Arranged policy q now k past

/-- The queue operates, and it agrees with the workers about every key. -/
structure Kept (policy : BackoffPolicy) (s : Workroom) : Prop where
  operates : Operates policy s.queue
  fits : ∀ k, Fits policy s.queue s.now k (s.duty k) (s.past k)

lemma move_duty_self (s : Workroom) (k : Key) (queue : WorkQueue Key) (duty : Duty) :
    (s.move k queue duty).duty k = duty := by
  simp [move]

lemma move_duty_of_ne (s : Workroom) (hj : j ≠ k) (queue : WorkQueue Key) (duty : Duty) :
    (s.move k queue duty).duty j = s.duty j := by
  simp [move, hj]

/-! ## What a step does -/

/-- What changed in a queue does not concern the worker that holds a key. -/
structure Spares (q q' : WorkQueue Key) (k : Key) : Prop where
  held_iff : k ∈ q'.processing ↔ k ∈ q.processing
  counts : q'.failures.counts.lookup k = q.failures.counts.lookup k
  awaited : k ∈ q.processing → ∀ deadline, q.Awaited k deadline → q'.Awaited k deadline

lemma Spares.of_failures (q : WorkQueue Key) {failures : Failures Key}
    (h : failures.counts.lookup k = q.failures.counts.lookup k) : Spares q { q with failures } k :=
  ⟨Iff.rfl, h, fun _ _ hd => hd⟩

/-- A step only concerns the key whose worker takes it. -/
lemma Step.spares (hs : Step s who s') (h : Operates policy s.queue) (hj : who ≠ some j) :
    Spares s.queue s'.queue j := by
  have hother : ∀ {k}, who = some k → j ≠ k := fun hk hjk => hj (hjk ▸ hk)
  have hlook : (s.queue.get s.now).1 ≠ .key j → ∀ deadline, s.queue.Awaited j deadline →
      (s.queue.get s.now).2.Awaited j deadline :=
    fun hne _ hd => hd.get h.isOpen h.keys_nodup hne
  have hcount := congrArg (fun f : Failures Key => f.counts.lookup j) (get_failures s.queue s.now)
  cases hs with
  | tick later => exact ⟨Iff.rfl, rfl, fun _ _ hd => hd⟩
  | event k =>
    refine ⟨?_, ?_, fun _ _ hd => hd.add k⟩
    · rw [add_processing]
    · rw [add_failures]
  | lookInVain answer queue got nothing =>
    rw [got] at hlook hcount
    exact ⟨by rw [get_processing_of_none got nothing], hcount, fun _ => hlook (nothing j)⟩
  | handOut k queue got =>
    have hjk := hother rfl
    rw [got] at hlook hcount
    refine ⟨?_, hcount, fun _ => hlook fun hk => hjk (Look.key.inj hk).symm⟩
    exact (get_processing_of_key got j).trans (or_iff_left hjk)
  | finish k o passing => exact ⟨Iff.rfl, rfl, fun _ _ hd => hd⟩
  | forget k a time ended =>
    apply Spares.of_failures
    rw [Failures.lookup_forget, if_neg (hother rfl)]
  | count k o time ended fails =>
    apply Spares.of_failures
    rw [Failures.lookup_record, if_neg (hother rfl)]
  | add k time delay asked =>
    refine ⟨?_, ?_, fun _ _ hd => hd.addAfter asked k delay⟩
    · exact iff_of_eq (congrArg (j ∈ ·) (addAfter_processing s.queue asked k delay))
    · exact congrArg (·.counts.lookup j) (addAfter_failures s.queue asked k delay)
  | done k time asked leaving =>
    refine ⟨?_, ?_, fun _ _ hd => hd.done k⟩
    · change j ∈ (s.queue.done k).1.processing ↔ j ∈ s.queue.processing
      rw [done_processing, mem_without, and_iff_left (hother rfl)]
    · exact congrArg (·.counts.lookup j) (done_failures s.queue k)

lemma Step.same (hs : Step s who s') (hj : who ≠ some j) :
    s.now ≤ s'.now ∧ s'.duty j = s.duty j ∧ s'.past j = s.past j := by
  have hother : ∀ {k}, who = some k → j ≠ k := fun hk hjk => hj (hjk ▸ hk)
  cases hs with
  | tick later h => exact ⟨h, rfl, rfl⟩
  | event k => exact ⟨le_rfl, rfl, rfl⟩
  | lookInVain answer queue got nothing => exact ⟨le_rfl, rfl, rfl⟩
  | handOut k queue got => exact ⟨le_rfl, move_duty_of_ne s (hother rfl) _ _, rfl⟩
  | finish k o passing =>
    exact ⟨le_rfl, move_duty_of_ne s (hother rfl) s.queue _, Function.update_of_ne (hother rfl) _ _⟩
  | forget k a time ended => exact ⟨le_rfl, move_duty_of_ne s (hother rfl) _ _, rfl⟩
  | count k o time ended fails => exact ⟨le_rfl, move_duty_of_ne s (hother rfl) _ _, rfl⟩
  | add k time delay asked => exact ⟨le_rfl, move_duty_of_ne s (hother rfl) _ _, rfl⟩
  | done k time asked leaving => exact ⟨le_rfl, move_duty_of_ne s (hother rfl) _ _, rfl⟩

/-- What others do does not disturb a key. -/
lemma Fits.frame {q q' : WorkQueue Key} {now now' : Nat} {duty : Duty} {past : List Outcome}
    (h : Fits policy q now k duty past) (hspares : Spares q q' k) (hlater : now ≤ now') :
    Fits policy q' now' k duty past := by
  have hcount : q'.requeues k = q.requeues k := congrArg (Option.getD · 0) hspares.counts
  refine ⟨hspares.held_iff.trans h.held_iff, hcount.trans h.counts, ?_⟩
  have harranged := h.arranged
  cases duty with
  | idle => trivial
  | passing => trivial
  | ended o time => exact ⟨harranged.1.trans hlater, harranged.2⟩
  | adding time delay => exact ⟨harranged.1.trans hlater, harranged.2⟩
  | leaving time asked =>
    obtain ⟨htime, hasked, o, before, hpast, hlimit⟩ := harranged
    have hk : k ∈ q.processing := h.held_iff.2 (by simp)
    exact ⟨htime, hasked.trans hlater, o, before, hpast, fun limit hl => hspares.awaited hk _ (hlimit limit hl)⟩

lemma Kept.operates_step (h : Kept policy s) (hs : Step s who s') : Operates policy s'.queue := by
  have hq := h.operates
  cases hs with
  | tick later => exact hq
  | event k => exact hq.add k
  | lookInVain answer queue got nothing => simpa only [got] using hq.get s.now
  | handOut k queue got =>
    change Operates policy queue
    simpa only [got] using hq.get s.now
  | finish k o passing => exact hq
  | forget k a time ended => exact hq.with_failures rfl
  | count k o time ended fails => exact hq.with_failures rfl
  | add k time delay asked => exact hq.addAfter asked k delay
  | done k time asked leaving => exact hq.done ((h.fits k).held_iff.2 (by simp [leaving]))

/-- A worker deals with the last outcome: the failures are counted anew or one more, and the key is added with the
delay that they call for. -/
lemma Kept.fits_step (h : Kept policy s) (hs : Step s (some k) s') :
    Fits policy s'.queue s'.now k (s'.duty k) (s'.past k) := by
  obtain ⟨hheld, hcounts, harranged⟩ := h.fits k
  cases hs with
  | handOut k queue got =>
    have hidle : s.duty k = .idle := by
      by_contra hne
      exact get_not_processing h.operates.exclusive got (hheld.2 hne)
    have hfailures : queue.failures = s.queue.failures := by simpa only [got] using get_failures s.queue s.now
    rw [move_duty_self]
    refine ⟨?_, ?_, trivial⟩
    · exact iff_of_true ((get_processing_of_key got k).2 (Or.inr rfl)) (by simp)
    · rw [hidle] at hcounts
      exact (congrArg (·.count k) hfailures).trans hcounts
  | finish k o passing =>
    rw [passing] at hheld hcounts
    change Fits policy s.queue s.now k (Function.update s.duty k _ k) (Function.update s.past k _ k)
    rw [Function.update_self, Function.update_self]
    exact ⟨iff_of_true (hheld.2 (by simp)) (by simp), hcounts, le_rfl, _, rfl⟩
  | forget k a time ended =>
    rw [ended] at hheld harranged
    obtain ⟨htime, before, hpast⟩ := harranged
    have hstreak : streak (s.past k) = 0 := hpast ▸ streak_of_not_fails rfl
    have hheld' : k ∈ s.queue.processing := hheld.2 (by simp)
    rw [move_duty_self]
    cases a with
    | done =>
      refine ⟨iff_of_true hheld' (by simp [Duty.next]), ?_, htime, le_rfl, _, before, hpast, ?_⟩
      · change (s.queue.failures.forget k).count k = min (streak (s.past k)) Text.max32
        rw [Failures.count_forget, hstreak, Nat.zero_min]
      · intro limit hlimit
        simp [allowance] at hlimit
    | requeueAfter delay =>
      refine ⟨iff_of_true hheld' (by simp [Duty.next]), ?_, htime, _, before, hpast, ?_⟩
      · change (s.queue.failures.forget k).count k = min (streak (s.past k)) Text.max32
        rw [Failures.count_forget, hstreak, Nat.zero_min]
      · intro limit hlimit
        exact (Option.some.inj hlimit).le
  | count k o time ended fails =>
    rw [ended] at hheld hcounts harranged
    obtain ⟨htime, before, hpast⟩ := harranged
    have hbefore : s.queue.failures.count k = min (streak before) Text.max32 := by
      rw [hpast] at hcounts
      exact hcounts
    rw [move_duty_self]
    refine ⟨iff_of_true (hheld.2 (by simp)) (by simp), ?_, htime, o, before, hpast, ?_⟩
    · change (s.queue.failures.record k).2.count k = min (streak (s.past k)) Text.max32
      rw [Failures.count_record, hbefore, hpast, streak_of_fails fails]
      omega
    · intro limit hlimit
      rw [allowance_of_fails policy fails] at hlimit
      obtain rfl := Option.some.inj hlimit
      have hdelay := policy.delay_le (min (streak before) Text.max32)
      have hpower : policy.base * 2 ^ min (streak before) Text.max32 ≤ policy.base * 2 ^ streak before :=
        Nat.mul_le_mul_left _ (Nat.pow_le_pow_right (by decide) (min_le_left _ _))
      change s.queue.failures.policy.delay (s.queue.failures.count k) ≤ _
      rw [h.operates.policy_eq, hbefore]
      exact hdelay.trans (min_le_min_right _ hpower)
  | add k time delay asked adding hasked hnow =>
    rw [adding] at hheld hcounts harranged
    obtain ⟨htime, o, before, hpast, hlimit⟩ := harranged
    have hprocessing : k ∈ (s.queue.addAfter asked k delay).1.processing := by
      rw [addAfter_processing]
      exact hheld.2 (by simp)
    rw [move_duty_self]
    refine ⟨iff_of_true hprocessing (by simp), ?_, hasked, hnow, o, before, hpast, ?_⟩
    · exact (congrArg (·.count k) (addAfter_failures s.queue asked k delay)).trans hcounts
    · intro limit hl
      exact (awaited_addAfter h.operates.isOpen asked k delay).mono (Nat.add_le_add_left (hlimit limit hl) asked)
  | done k time asked leaving =>
    rw [leaving] at hcounts
    rw [move_duty_self]
    refine ⟨?_, (congrArg (·.count k) (done_failures s.queue k)).trans hcounts, trivial⟩
    change k ∈ (s.queue.done k).1.processing ↔ _
    simp [done_processing]

theorem Kept.step (h : Kept policy s) (hs : Step s who s') : Kept policy s' := by
  refine ⟨h.operates_step hs, fun j => ?_⟩
  by_cases hj : who = some j
  · exact h.fits_step (hj ▸ hs)
  · obtain ⟨hlater, hduty, hpast⟩ := hs.same hj
    rw [hduty, hpast]
    exact (h.fits j).frame (hs.spares h.operates hj) hlater

lemma Kept.of_reachable (h : Reachable policy s) : Kept policy s := by
  induction h with
  | refl => exact ⟨.new policy, fun k => ⟨by simp [new, WorkQueue.new], by rfl, trivial⟩⟩
  | tail _ hs ih => exact ih.step hs.choose_spec

/-! ## Retries -/

/-- The pass of a key has ended and its worker has done all that follows, at once. -/
def conclude (s : Workroom) (k : Key) (o : Outcome) : Workroom :=
  { s.move k (s.queue.conclude s.now k o) .idle with past := Function.update s.past k (o :: s.past k) }

end Workroom

end Timetable
