import Mathlib.Logic.Relation
import Timetable.Proofs.Store.Watching

/-!
# Watches are read while requests are served

While a store serves requests, a reader takes what its watch has ready, also between the changes of one
request. What it has been given is at any time a stretch of the journal that begins where the watch was
opened. The watch ends only when too much of the journal is undelivered.
-/

namespace Timetable

lemma Chronicle.of_append {new past : List Store} {s : Store} (h : Chronicle (new ++ s :: past)) :
    Chronicle (s :: past) := by
  induction new with
  | nil => exact h
  | cons t rest ih =>
    cases rest with
    | nil =>
      cases h with
      | turn h _ => exact h
    | cons u rest =>
      cases h with
      | turn h _ => exact ih h

/-! ## Runs -/

/-- A store that serves requests, with the stores before, the last one first, and a reader that has a watch
until it ends. The stores that the request being served still passes through are ahead. -/
structure Watching where
  store : Store
  past : List Store
  ahead : List Store
  watch : Option Watch
  delivered : List Change

namespace Watching

def opened (s : Store) (past : List Store) (w : Watch) : Watching := ⟨s, past, [], some w, []⟩

def stores (c : Watching) : List Store := c.store :: c.past

/-- The reader takes the next change, if one is ready. -/
def receive (c : Watching) (w : Watch) : Watching :=
  match w.poll c.store with
  | .change d rest => { c with watch := some rest, delivered := c.delivered ++ [d] }
  | .waiting rest => { c with watch := some rest }
  | .ended => { c with watch := none }

/-- The reader takes all that is ready. -/
def drain (c : Watching) (w : Watch) : Watching :=
  { c with watch := (w.drain c.store).2, delivered := c.delivered ++ (w.drain c.store).1 }

/-- A request comes in, the store goes on with it, or the reader takes what is ready. -/
inductive Step (c : Watching) : Watching → Prop
  | request (r : Request) : c.ahead = [] → Step c { c with ahead := (c.store.stages r).reverse }
  | stage {t : Store} {rest : List Store} :
      c.ahead = t :: rest → Step c { c with store := t, past := c.stores, ahead := rest }
  | receive {w : Watch} : c.watch = some w → Step c (c.receive w)
  | drain {w : Watch} : c.watch = some w → Step c (c.drain w)

/-- What the reader has been given is the journal from the version `v` on, none left out and none twice.
There is more unless all is given, and the watch ends only when more than its capacity is not. -/
structure Delivers (v opened : Nat) (c : Watching) : Prop where
  inOrder : c.delivered <+: (journal c.stores).drop v
  next : ∀ w, c.watch = some w →
    match w.poll c.store with
    | .change d _ => (journal c.stores)[v + c.delivered.length]? = some d
    | .waiting _ => c.store.version ≤ v + c.delivered.length
    | .ended => min v opened + c.delivered.length + Watch.capacity < c.store.version
  ended : c.watch = none → min v opened + c.delivered.length + Watch.capacity < c.store.version

/-- What holds all the time while a watch is read. -/
structure Sound (v opened : Nat) (c : Watching) : Prop where
  chronicle : Chronicle (c.ahead.reverse ++ c.stores)
  inOrder : c.delivered <+: (journal c.stores).drop v
  serves : ∀ w, c.watch = some w → w.Serves (journal c.stores) v opened c.delivered
  ended : c.watch = none → min v opened + c.delivered.length + Watch.capacity < c.store.version

variable {c d : Watching} {s : Store} {past : List Store} {v opened : Nat} {w : Watch}

namespace Sound

lemma stores_chronicle (h : c.Sound v opened) : Chronicle c.stores :=
  h.chronicle.of_append

lemma of_openAt (hc : Chronicle (s :: past)) (hopen : Watch.openAt s v = .ok w) :
    (Watching.opened s past w).Sound v s.version where
  chronicle := hc
  inOrder := List.nil_prefix
  serves u hu := Option.some.inj hu ▸ .of_openAt hc hopen
  ended hnone := by simp [Watching.opened] at hnone

/-- The store goes on while the watch is not read. -/
lemma stage {t : Store} {rest : List Store} (h : c.Sound v opened) (hahead : c.ahead = t :: rest) :
    Sound v opened { c with store := t, past := c.stores, ahead := rest } := by
  have hall := h.chronicle
  rw [hahead, List.reverse_cons, List.append_assoc, List.singleton_append] at hall
  have hgrown : journal c.stores <+: journal (t :: c.stores) := journal_append [t] c.store c.past
  constructor
  · exact hall
  · obtain ⟨new, hnew⟩ := hgrown
    change c.delivered <+: (journal (t :: c.stores)).drop v
    rw [← hnew, List.drop_append]
    exact h.inOrder.trans (List.prefix_append _ _)
  · exact fun u hu => (h.serves u hu).mono hgrown
  · intro hnone
    have hle : c.store.version ≤ t.version :=
      (Chronicle.of_append hall).version_le_head (List.mem_cons_of_mem t List.mem_cons_self)
    exact (h.ended hnone).trans_le hle

lemma receive (h : c.Sound v opened) (hw : c.watch = some w) : (c.receive w).Sound v opened := by
  have hpoll := (h.serves w hw).poll h.stores_chronicle
  unfold Watching.receive
  cases hfound : w.poll c.store with
  | change d rest =>
    rw [hfound] at hpoll
    constructor
    · exact h.chronicle
    · exact (List.prefix_append _ rest.backlog).trans hpoll.2.inOrder
    · exact fun u hu => Option.some.inj hu ▸ hpoll.2
    · intro hnone
      simp at hnone
  | waiting rest =>
    rw [hfound] at hpoll
    constructor
    · exact h.chronicle
    · exact h.inOrder
    · exact fun u hu => Option.some.inj hu ▸ hpoll.2
    · intro hnone
      simp at hnone
  | ended =>
    rw [hfound] at hpoll
    constructor
    · exact h.chronicle
    · exact h.inOrder
    · intro u hu
      simp at hu
    · exact fun _ => hpoll

lemma drain (h : c.Sound v opened) (hw : c.watch = some w) : (c.drain w).Sound v opened := by
  have hdrain := (h.serves w hw).drain h.stores_chronicle
  unfold Watching.drain
  cases hfound : w.drain c.store with
  | mk ready left =>
    rw [hfound] at hdrain
    cases left with
    | some rest =>
      constructor
      · exact h.chronicle
      · exact (List.prefix_append _ rest.backlog).trans hdrain.inOrder
      · exact fun u hu => Option.some.inj hu ▸ hdrain
      · intro hnone
        simp at hnone
    | none =>
      constructor
      · exact h.chronicle
      · exact hdrain.1
      · intro u hu
        simp at hu
      · exact fun _ => hdrain.2

theorem step (h : c.Sound v opened) (hstep : c.Step d) : d.Sound v opened := by
  cases hstep with
  | request r _ =>
    constructor
    · change Chronicle ((c.store.stages r).reverse.reverse ++ c.stores)
      rw [List.reverse_reverse]
      exact h.stores_chronicle.stages r
    · exact h.inOrder
    · exact h.serves
    · exact h.ended
  | stage hahead => exact h.stage hahead
  | receive hw => exact h.receive hw
  | drain hw => exact h.drain hw

lemma delivers (h : c.Sound v opened) : c.Delivers v opened := by
  constructor
  · exact h.inOrder
  · intro w hw
    have hpoll := (h.serves w hw).poll h.stores_chronicle
    split
    · rename_i d rest hfound
      rw [hfound] at hpoll
      exact hpoll.1
    · rename_i rest hfound
      rw [hfound] at hpoll
      exact hpoll.1
    · rename_i hfound
      rw [hfound] at hpoll
      exact hpoll
  · exact h.ended

end Sound

lemma sound_of_reachable (hc : Chronicle (s :: past)) (hopen : Watch.openAt s v = .ok w)
    (h : Relation.ReflTransGen Step (Watching.opened s past w) c) : c.Sound v s.version := by
  induction h with
  | refl => exact .of_openAt hc hopen
  | tail _ hstep ih => exact ih.step hstep

end Watching

/-- In every store that requests lead to, the history is the end of the journal, and an object's version is
its own. A watch is refused only for what the history has lost, and else delivers the journal from its version
on. Replaying the journal from one listing on gives the later ones. -/
theorem Served.watch_delivers {s : Store} {past : List Store} (h : Served (s :: past)) :
    (Follow 0 (journal (s :: past)) ∧ (journal (s :: past)).length = s.version ∧
      s.history = (journal (s :: past)).drop (s.version - 1024)) ∧
    (∀ kind key o, s.objects.get? kind key = some o → o.version ≤ s.version ∧
      ∀ kind' key' p, s.objects.get? kind' key' = some p → p.version = o.version →
        kind' = kind ∧ key' = key) ∧
    (∀ v, if v < s.version ∧ ∀ c ∈ s.history, c.version ≠ v + 1
      then Watch.openAt s v = .error (.unavailable s!"watch from version {v} is no longer available")
      else ∃ w, Watch.openAt s v = .ok w ∧
        ∀ c, Relation.ReflTransGen Watching.Step (.opened s past w) c → c.Delivers v s.version) ∧
    ∀ t ∈ s :: past, ∀ u ∈ s :: past, t.version ≤ u.version →
      (((journal (s :: past)).drop t.version).take (u.version - t.version)).foldl Listing.apply
        t.objects = u.objects := by
  have hc := h.chronicle
  have hs : s ∈ s :: past := List.mem_cons_self
  have hkeyed := hc.keyed hs
  obtain ⟨hfollow, hlength⟩ := hc.journal_follow
  refine ⟨⟨hfollow, hlength, hc.history_eq⟩, ?_, ?_, fun t ht u hu => hc.replay_between ht hu⟩
  · intro kind key o ho
    refine ⟨hc.mem_version_le hs (hkeyed.mem ho), fun kind' key' p hp hversion => ?_⟩
    obtain rfl := hc.mem_eq hs hs (hkeyed.mem hp) (hkeyed.mem ho) hversion
    rw [← Listing.kind_of_get? ho, ← Listing.kind_of_get? hp, ← hkeyed kind key p ho,
      ← hkeyed kind' key' p hp]
    exact ⟨rfl, rfl⟩
  · intro v
    have hopen := Watch.openAt_eq hc v
    split_ifs with hrefused
    · rw [hopen, if_pos hrefused]
    · rw [if_neg hrefused] at hopen
      exact ⟨_, hopen, fun c hreach => (Watching.sound_of_reachable hc hopen hreach).delivers⟩

/-! ## A deletion read halfway -/

namespace Watching

/-- A schedule with one work item. -/
def staffed : List Store :=
  let created := Store.empty.serve (.createSchedule ⟨.ofNat 1, .ofSecond 0⟩ .minutely)
  let owner : OwnerReference := ⟨Kind.schedule.name, "tick", .ofNat 1, true⟩
  let child : WorkItem :=
    ⟨{ Meta.new "jobs" "tick-60" .blank with owners := [owner] }, .bool true, .initial⟩
  [created.serve (.createWorkItem ⟨.ofNat 2, .ofSecond 60⟩ child), created, .empty]

lemma served_staffed : Served staffed :=
  .serve (.createWorkItem _ _) (.serve (.createSchedule _ _) .start)

/-- The watch after the creation of the schedule. -/
def second : Watch :=
  ⟨1, (staffed.headD .empty).history.drop 1, 2⟩

def proceed (c : Watching) : Watching :=
  match c.ahead with
  | t :: rest => { c with store := t, past := c.stores, ahead := rest }
  | [] => c

def take (c : Watching) : Watching :=
  match c.watch with
  | some w => c.receive w
  | none => c

lemma proceed_steps (c : Watching) : Relation.ReflTransGen Step c c.proceed := by
  unfold proceed
  split
  · rename_i t rest hahead
    exact .single (.stage hahead)
  · exact .refl

lemma take_steps (c : Watching) : Relation.ReflTransGen Step c c.take := by
  unfold take
  split
  · rename_i w hw
    exact .single (.receive hw)
  · exact .refl

def before : Watching := opened (staffed.headD .empty) staffed.tail second

def deletion : Request := .deleteSchedule Schedule.minutely.metadata.key .background

def asked : Watching := { before with ahead := (before.store.stages deletion).reverse }

/-- The schedule is deleted, and the reader takes two changes before the work item is deleted too. -/
def halfway : Watching := asked.proceed.take.take

lemma halfway_steps : Relation.ReflTransGen Step before halfway := by
  have hasked : Relation.ReflTransGen Step before asked := .single (.request deletion rfl)
  have hfirst := hasked.trans asked.proceed_steps
  exact (hfirst.trans (take_steps _)).trans (take_steps _)

end Watching

/-- Read between the two changes of one request, a watch has delivered the first of them and then the
second. -/
theorem Served.watch_delivers_halfway :
    Served Watching.staffed ∧ Watch.openAt Watching.before.store 1 = .ok Watching.second ∧
      Watching.halfway.ahead.length = 1 ∧
      Watching.halfway.delivered.map (·.version) = [2, 3] ∧ Watching.halfway.Delivers 1 2 ∧
      Watching.halfway.proceed.take.delivered.map (·.version) = [2, 3, 4] ∧
      Watching.halfway.proceed.take.Delivers 1 2 := by
  have hopen : Watch.openAt Watching.before.store 1 = .ok Watching.second := by decide +kernel
  have hkept : ¬(1 < Watching.before.store.version ∧
      ∀ c ∈ Watching.before.store.history, c.version ≠ 1 + 1) := by decide +kernel
  have hversion : Watching.before.store.version = 2 := by decide +kernel
  have hserved : Served (Watching.before.store :: Watching.before.past) := Watching.served_staffed
  obtain ⟨-, -, hwatch, -⟩ := Served.watch_delivers hserved
  have hone := hwatch 1
  rw [if_neg hkept] at hone
  obtain ⟨w, hw, hdelivers⟩ := hone
  obtain rfl := Except.ok.inj (hopen.symm.trans hw)
  rw [hversion] at hdelivers
  refine ⟨Watching.served_staffed, hopen, by decide +kernel, by decide +kernel,
    hdelivers _ Watching.halfway_steps, by decide +kernel, hdelivers _ ?_⟩
  exact (Watching.halfway_steps.trans (Watching.proceed_steps _)).trans (Watching.take_steps _)

end Timetable
