import Mathlib.Data.List.Destutter
import Mathlib.Logic.Relation
import Timetable.Proofs.Controller.Executing
import Timetable.Proofs.Store.Identity

/-!
# Courses of work items

Any number of rounds of the executor are under way at once, each with what it has listed and the time that it
has read. In between the clock goes either way, requests are made to fail, and other clients ask for whatever
they like, except that they write no status of a work item. A write of a round lands only on what the round has
listed, so that a status moves on from the one stored and never goes back.
-/

namespace Timetable

/-- A round under way: how long work items run, what it has listed, the time that it has read, the work items
whose status it has written, as stored before and after, and what is left of it. -/
structure Round where
  runtime : Int
  listed : List WorkItem
  reading : Option Instant
  moved : List (WorkItem × WorkItem)
  rest : Client (Except StoreError Nat)

/-- A site with the stores before and the rounds begun so far. Of a round that is given up no call comes any
more. -/
structure Factory where
  site : Site
  past : List Store
  rounds : List Round

namespace Client
variable {α : Type}

def listed? (site : Site) : Client α → Option (List WorkItem)
  | listItems _ => some site.store.objects.items
  | _ => none

def reading? (site : Site) : Client α → Option Instant
  | readClock _ => some site.clock
  | _ => none

/-- The work item whose status the next call writes, as stored before and after, if the store takes the write. -/
def moved? (site : Site) : Client α → Option (WorkItem × WorkItem)
  | writeItemStatus w _ =>
    let after := (site.store.updateWorkItemStatus w).2
    if after.version = site.store.version then none
    else do
      let old ← site.store.objects.workItems[w.metadata.key]?
      let new ← after.objects.workItems[w.metadata.key]?
      return (old, new)
  | _ => none

end Client

/-- The round after its next call. -/
def Round.call (r : Round) (site : Site) : Round where
  runtime := r.runtime
  listed := (r.rest.listed? site).getD r.listed
  reading := r.rest.reading? site <|> r.reading
  moved := (r.rest.moved? site).toList ++ r.moved
  rest := (r.rest.step .blank site).1

namespace Factory

def new (clock : Instant) : Factory := ⟨⟨.empty, clock, []⟩, [], []⟩

def stores (f : Factory) : List Store := f.site.store :: f.past

def serve (f : Factory) (r : Request) : Factory :=
  { f with
    site := { f.site with store := f.site.store.serve r }
    past := (f.site.store.stages r).tail ++ f.stores }

def setClock (f : Factory) (now : Instant) : Factory :=
  { f with site := { f.site with clock := now } }

def begin (f : Factory) (runtime : Int) : Factory :=
  { f with rounds := ⟨runtime, [], none, [], Executor.round runtime⟩ :: f.rounds }

/-- The factory after the next call of a round. -/
def callOf (f : Factory) (i : Nat) (r : Round) : Factory where
  site := (r.rest.step .blank f.site).2
  past := f.stores
  rounds := f.rounds.set i (r.call f.site)

/-- The factory after the next call of the round at an index, if there is one. -/
def call (f : Factory) (i : Nat) : Factory :=
  match f.rounds[i]? with
  | some r => f.callOf i r
  | none => f

/-- What may happen next. -/
inductive Step (f : Factory) : Factory → Prop
  | request {r : Request} : (∀ w, r ≠ .updateWorkItemStatus w) → Step f (f.serve r)
  | clock (now : Instant) : Step f (f.setClock now)
  | begin (runtime : Int) : Step f (f.begin runtime)
  | call (i : Nat) : Step f (f.call i)

def Reachable (f : Factory) : Prop :=
  ∃ clock, Relation.ReflTransGen Step (new clock) f

end Factory

/-! ## What rounds have done -/

/-- A work item is as before, unless it was freed from a schedule: then it has lost owners and got a new version. -/
def WorkItem.Persists (v w : WorkItem) : Prop :=
  ∃ owners version, owners.Sublist v.metadata.owners ∧
    w = { v with metadata := { v.metadata with owners, version } }

/-- A round has written the next status of a work item that it has listed, at the time that it has read. -/
def Round.Moves (r : Round) (v w : WorkItem) : Prop :=
  v ∈ r.listed ∧ (∃ version status, w = { v with metadata := { v.metadata with version }, status }) ∧
    ∃ now, r.reading = some now ∧ Executor.Advances r.runtime now v.status w.status

/-- A work item persists, or a round has moved it on. -/
def WorkItem.GoesOn (rounds : List Round) (v w : WorkItem) : Prop :=
  v.Persists w ∨ ∃ r ∈ rounds, (v, w) ∈ r.moved

/-- What stood under a key since the key was free, the last one first. -/
def life (key : Key) : List Store → List WorkItem
  | [] => []
  | s :: past =>
    match s.objects.workItems[key]? with
    | some w => w :: life key past
    | none => []

/-- The statuses that a work item takes on, the last one first: it is created, it starts at the time that some
round has read, and it succeeds at the time that some round has read once it has run as long as it should. -/
inductive Course (rounds : List Round) : List WorkItemStatus → Prop
  | created : Course rounds [.initial]
  | started {r : Round} {now : Instant} : r ∈ rounds → r.reading = some now →
      Course rounds [⟨.running, some now, none⟩, .initial]
  | succeeded {r : Round} {begun finish now : Instant} :
      Course rounds [⟨.running, some begun, none⟩, .initial] → r ∈ rounds → r.reading = some now →
      begun.add? r.runtime = some finish → finish ≤ now →
      Course rounds [⟨.succeeded, some begun, some now⟩, ⟨.running, some begun, none⟩, .initial]

/-- A terminal work item persists. -/
def Lasts (w v : WorkItem) : Prop :=
  v.status.phase.isTerminal = true → v.Persists w

/-- A work item moves forward only: one created as pending goes through the course of statuses without skips and
repetitions, only rounds move it on, and once it is terminal it persists. -/
structure Forward (rounds : List Round) (ws : List WorkItem) : Prop where
  course : ws.getLast?.map (·.status) = some .initial →
    Course rounds ((ws.map (·.status)).destutter (· ≠ ·))
  steps : ws.IsChain fun w v => v.GoesOn rounds w
  terminal : ws.Pairwise Lasts

/-- All writes of a round moved items on, its next call touches only what is stored as it was listed and is not
terminal, and a count that it ends with is the number of its writes. -/
structure Round.Honest (site : Site) (r : Round) : Prop where
  moves : ∀ v w, (v, w) ∈ r.moved → r.Moves v w
  spares : ∀ key : Key,
    (∃ v ∈ r.listed, site.store.objects.workItems[key]? = some v ∧ v.status.phase.isTerminal = false) ∨
      (r.rest.step .blank site).2.store.objects.workItems[key]? = site.store.objects.workItems[key]?
  count : ∀ n, r.rest = .done (.ok n) → r.moved.length = n

section
variable {rounds old : List Round} {r : Round} {u v w : WorkItem} {ws : List WorkItem} {now : Instant}
  {key : Key} {before after : WorkItemStatus} {rest : List WorkItemStatus}

lemma WorkItem.Persists.refl (w : WorkItem) : w.Persists w :=
  ⟨w.metadata.owners, w.metadata.version, List.Sublist.refl _, rfl⟩

lemma WorkItem.Persists.status_eq (h : v.Persists w) : w.status = v.status := by
  obtain ⟨owners, version, -, rfl⟩ := h
  rfl

lemma WorkItem.Persists.trans (h : u.Persists v) (h' : v.Persists w) : u.Persists w := by
  obtain ⟨owners, version, hsub, rfl⟩ := h
  obtain ⟨owners', version', hsub', rfl⟩ := h'
  exact ⟨owners', version', hsub'.trans hsub, rfl⟩

lemma Lasts.trans (h : Lasts w v) (h' : Lasts v u) : Lasts w u := by
  intro hterminal
  have hpersists := h' hterminal
  exact hpersists.trans (h (hpersists.status_eq ▸ hterminal))

instance : Trans Lasts Lasts Lasts := ⟨Lasts.trans⟩

lemma WorkItem.GoesOn.mono (h : v.GoesOn old w)
    (hsub : ∀ r ∈ old, ∃ r' ∈ rounds, r.moved ⊆ r'.moved) : v.GoesOn rounds w := by
  refine h.imp_right ?_
  rintro ⟨r, hr, hmoved⟩
  obtain ⟨r', hr', hsub⟩ := hsub r hr
  exact ⟨r', hr', hsub hmoved⟩

/-! ## Lives -/

/-- From a status on a course only the next one follows. -/
lemma Course.advance (h : Course rounds (before :: rest)) (hr : r ∈ rounds) (hreading : r.reading = some now)
    (hmove : Executor.Advances r.runtime now before after) : Course rounds (after :: before :: rest) := by
  cases h with
  | created =>
    cases hmove with
    | start _ => exact .started hr hreading
    | finish hphase => exact absurd hphase (by decide)
  | started hr' hreading' =>
    cases hmove with
    | start hphase => exact absurd hphase (by simp)
    | finish _ hfinish hle => exact .succeeded (.started hr' hreading') hr hreading hfinish hle
  | succeeded =>
    have hactive := hmove.active
    exact absurd hactive (by simp [Phase.isTerminal])

lemma WorkItem.GoesOn.cases (h : v.GoesOn rounds w)
    (hmoves : ∀ r ∈ rounds, ∀ v w, (v, w) ∈ r.moved → r.Moves v w) :
    v.Persists w ∨ ∃ r ∈ rounds, ∃ now, r.reading = some now ∧
      Executor.Advances r.runtime now v.status w.status := by
  refine h.imp_right ?_
  rintro ⟨r, hr, hmoved⟩
  obtain ⟨-, -, hmove⟩ := hmoves r hr v w hmoved
  exact ⟨r, hr, hmove⟩

lemma destutter'_head (s : WorkItemStatus) (l : List WorkItemStatus) :
    ∃ rest, l.destutter' (· ≠ ·) s = s :: rest := by
  induction l with
  | nil => exact ⟨[], rfl⟩
  | cons t l ih =>
    by_cases hne : s ≠ t
    · exact ⟨_, List.destutter'_cons_pos _ hne⟩
    · rwa [List.destutter'_cons_neg _ hne]

theorem course_of_chain (hmoves : ∀ r ∈ rounds, ∀ v w, (v, w) ∈ r.moved → r.Moves v w)
    (h : ws.IsChain fun w v => v.GoesOn rounds w) (hcreated : ws.getLast?.map (·.status) = some .initial) :
    Course rounds ((ws.map (·.status)).destutter (· ≠ ·)) := by
  induction ws with
  | nil => simp at hcreated
  | cons w ws ih =>
    cases ws with
    | nil =>
      obtain hw : w.status = .initial := Option.some.inj hcreated
      rw [List.map_singleton, List.destutter_singleton, hw]
      exact .created
    | cons v ws =>
      obtain ⟨hlink, hrest⟩ := List.isChain_cons_cons.1 h
      rw [List.getLast?_cons_cons] at hcreated
      have hbefore := ih hrest hcreated
      rw [List.map_cons, List.destutter_cons'] at hbefore
      rw [List.map_cons, List.map_cons, List.destutter_cons']
      by_cases hsame : w.status = v.status
      · rwa [hsame, List.destutter'_cons_neg _ (by simp)]
      · rw [List.destutter'_cons_pos _ hsame]
        obtain hpersists | ⟨r, hr, now, hreading, hmove⟩ := hlink.cases hmoves
        · exact absurd hpersists.status_eq hsame
        · obtain ⟨rest, hhead⟩ := destutter'_head v.status (ws.map (·.status))
          rw [hhead] at hbefore ⊢
          exact hbefore.advance hr hreading hmove

theorem forward_of_chain (hmoves : ∀ r ∈ rounds, ∀ v w, (v, w) ∈ r.moved → r.Moves v w)
    (h : ws.IsChain fun w v => v.GoesOn rounds w) : Forward rounds ws := by
  have hlasts : ws.IsChain Lasts := by
    refine h.imp fun w v hlink hterminal => ?_
    obtain hpersists | ⟨r, -, now, -, hmove⟩ := hlink.cases hmoves
    · exact hpersists
    · exact absurd (hmove.active.symm.trans hterminal) (by simp)
  exact ⟨course_of_chain hmoves h, h, hlasts.pairwise⟩

lemma life_head (key : Key) (s : Store) (past : List Store) :
    (life key (s :: past)).head? = s.objects.workItems[key]? := by
  unfold life
  split
  · rename_i w hw
    exact hw.symm
  · rename_i hw
    exact hw.symm

lemma isChain_life {P : WorkItem → WorkItem → Prop} {stores : List Store}
    (h : stores.IsChain fun t s => s.Relates P t) (key : Key) :
    (life key stores).IsChain fun w v => P v w := by
  induction stores with
  | nil => exact List.isChain_nil
  | cons t past ih =>
    unfold life
    split
    · rename_i w hw
      refine List.isChain_cons.2 ⟨fun v hv => ?_, ih h.tail⟩
      cases past with
      | nil => simp [life] at hv
      | cons s past =>
        rw [life_head] at hv
        exact (List.isChain_cons_cons.1 h).1 key v w hv hw
    · exact List.isChain_nil

end

/-! ## Calls -/

namespace Round
variable {r : Round} {site : Site} {stores old past : List Store} {s t : Store} {v w next : WorkItem}
  {answer : Except StoreError WorkItem → Client (Except StoreError Nat)} {e : StoreError}

/-- How far a round is: it goes on with work items that it has listed, at the time that it has read, and has
counted its writes. -/
inductive Stage (r : Round) : Prop
  | begun : r.rest = Executor.round r.runtime → r.moved = [] → Stage r
  | listed : r.rest = .readClock (fun now => Executor.moveAll r.runtime now 0 r.listed) → r.moved = [] →
      Stage r
  | moving {now : Instant} {ws : List WorkItem} : r.reading = some now → ws ⊆ r.listed →
      r.rest = Executor.moveAll r.runtime now r.moved.length ws → Stage r
  | failed {e : StoreError} : r.rest = .done (.error e) → Stage r

structure Sound (stores : List Store) (r : Round) : Prop where
  seen : ∀ v ∈ r.listed, ∃ t ∈ stores, .workItem v ∈ t.objects
  moves : ∀ v w, (v, w) ∈ r.moved → r.Moves v w
  stage : r.Stage

/-- The next call of a round writes the status of a work item that is stored as it was listed. -/
structure Writes (site : Site) (r : Round) (v next : WorkItem) : Prop where
  listed : v ∈ r.listed
  active : v.status.phase.isTerminal = false
  stored : site.store.objects.workItems[v.metadata.key]? = some v
  moved : (v, site.store.withItemStatusOf next v) ∈ (r.call site).moved
  data : Store.SameData (r.rest.step .blank site).2.store
    (site.store.commit .modified (.workItem (site.store.withItemStatusOf next v)))

lemma sound_round (stores : List Store) (runtime : Int) :
    Sound stores ⟨runtime, [], none, [], Executor.round runtime⟩ :=
  ⟨by simp, by simp, .begun rfl rfl⟩

lemma Sound.mono (h : r.Sound old) (hsub : old ⊆ stores) : r.Sound stores := by
  refine ⟨fun v hv => ?_, h.moves, h.stage⟩
  obtain ⟨t, ht, hseen⟩ := h.seen v hv
  exact ⟨t, hsub ht, hseen⟩

lemma call_done {a : Except StoreError Nat} (h : r.rest = .done a) : r.call site = r := by
  obtain ⟨runtime, listed, reading, moved, rest⟩ := r
  obtain rfl : rest = .done a := h
  rfl

lemma call_refused (hrest : r.rest = .writeItemStatus next answer)
    (he : site.store.updateWorkItemStatus next = (.error e, t)) (ht : Store.SameData t site.store) :
    r.call site = { r with rest := answer (.error e) } := by
  obtain ⟨runtime, listed, reading, moved, rest⟩ := r
  obtain rfl : rest = .writeItemStatus next answer := hrest
  have hmoved : (Client.writeItemStatus next answer).moved? site = none := by
    simp only [Client.moved?, he, if_pos ht.version]
  simp only [call, hmoved, Client.step, he]
  rfl

lemma call_landed (hrest : r.rest = .writeItemStatus next answer) (hmetadata : next.metadata = v.metadata)
    (hstored : site.store.objects.workItems[v.metadata.key]? = some v)
    (hok : site.store.updateWorkItemStatus next = (.ok (site.store.withItemStatusOf next v), t))
    (ht : Store.SameData t (site.store.commit .modified (.workItem (site.store.withItemStatusOf next v)))) :
    r.call site = { r with
      moved := (v, site.store.withItemStatusOf next v) :: r.moved
      rest := answer (.ok (site.store.withItemStatusOf next v)) } := by
  obtain ⟨runtime, listed, reading, moved, rest⟩ := r
  obtain rfl : rest = .writeItemStatus next answer := hrest
  have hversion : t.version ≠ site.store.version := by
    rw [ht.version, Store.commit_version]
    omega
  have hput : t.objects = site.store.objects.put (.workItem (site.store.withItemStatusOf next v)) := ht.objects
  have hnew : t.objects.workItems[v.metadata.key]? = some (site.store.withItemStatusOf next v) := by
    rw [hput, Store.workItems_put]
    exact if_pos rfl
  have hmoved : (Client.writeItemStatus next answer).moved? site =
      some (v, site.store.withItemStatusOf next v) := by
    simp only [Client.moved?, hok, if_neg hversion, hmetadata, hstored, hnew]
    rfl
  simp only [call, hmoved, Client.step, hok]
  rfl

lemma moved_subset_call (r : Round) (site : Site) : r.moved ⊆ (r.call site).moved :=
  List.subset_append_right _ _

lemma sound_listing (hc : Chronicle (site.store :: past))
    (hrest : r.rest = Executor.round r.runtime) (hmoved : r.moved = []) :
    (r.call site).Sound (site.store :: past) := by
  have hs : site.store ∈ site.store :: past := List.mem_cons_self
  obtain ⟨runtime, listed, reading, moved, rest⟩ := r
  obtain rfl : rest = Executor.round runtime := hrest
  obtain rfl : moved = [] := hmoved
  constructor
  · intro v hv
    exact ⟨site.store, hs, Listing.mem_workItem.2 ((hc.keyed hs).mem_items.1 hv)⟩
  · simp [call, Client.moved?, Executor.round]
  · exact .listed rfl rfl

lemma sound_reading (h : r.Sound stores)
    (hrest : r.rest = .readClock (fun now => Executor.moveAll r.runtime now 0 r.listed)) (hmoved : r.moved = []) :
    (r.call site).Sound stores := by
  obtain ⟨runtime, listed, reading, moved, rest⟩ := r
  obtain rfl : rest = .readClock (fun now => Executor.moveAll runtime now 0 listed) := hrest
  obtain rfl : moved = [] := hmoved
  refine ⟨h.seen, by simp [call, Client.moved?], ?_⟩
  exact .moving rfl (List.Subset.refl _) rfl

/-- A write is refused or lands on what was listed. -/
lemma sound_moving (h : r.Sound (site.store :: past)) (hc : Chronicle (site.store :: past)) {now : Instant}
    {ws : List WorkItem} (hreading : r.reading = some now) (hws : ws ⊆ r.listed)
    (hrest : r.rest = Executor.moveAll r.runtime now r.moved.length ws) :
    (r.call site).Sound (site.store :: past) ∧
      (Store.SameData (r.rest.step .blank site).2.store site.store ∨ ∃ v next, r.Writes site v next) := by
  obtain hdone | ⟨v, hv, next, rest, answer, hadvance, hsub, hwrite, hok, herror⟩ :=
    Executor.moveAll_cases r.runtime now r.moved.length ws
  · rw [hdone] at hrest
    rw [call_done hrest, hrest]
    exact ⟨h, Or.inl (Store.SameData.refl _)⟩
  · obtain ⟨hnext, hmove⟩ := Executor.advance_eq_some_iff.1 hadvance
    have hmetadata : next.metadata = v.metadata := by rw [hnext]
    obtain ⟨t, ht, hseen⟩ := h.seen v (hws hv)
    rw [hwrite] at hrest
    have hstep : (r.rest.step .blank site).2.store = (site.store.updateWorkItemStatus next).2 := by
      rw [hrest]
      rfl
    -- a version tells the work item, so that a write which is taken replaces just what was listed
    obtain ⟨e, u, he, hu⟩ | ⟨hstored, u, hlanded, hu⟩ :=
      Store.updateWorkItemStatus_of_read hc List.mem_cons_self ht hseen hmetadata
    · rw [call_refused hrest he hu, hstep, he]
      refine ⟨⟨h.seen, h.moves, ?_⟩, Or.inl hu⟩
      obtain hgoes | hends := herror e
      · exact .moving hreading (List.Subset.trans hsub hws) hgoes
      · exact .failed hends
    · have hcall := call_landed hrest hmetadata hstored hlanded hu
      rw [hstep, hlanded]
      constructor
      · rw [hcall]
        refine ⟨h.seen, fun u w hmoved => ?_, .moving hreading (List.Subset.trans hsub hws) (hok _)⟩
        obtain hnew | hold := List.mem_cons.1 hmoved
        · obtain ⟨rfl, rfl⟩ := Prod.mk.inj hnew
          exact ⟨hws hv, ⟨_, _, rfl⟩, now, hreading, hmove⟩
        · exact h.moves u w hold
      · refine Or.inr ⟨v, next, hws hv, hmove.active, hstored, ?_, ?_⟩
        · rw [hcall]
          exact List.mem_cons_self
        · rw [hstep, hlanded]
          exact hu

theorem Sound.call (h : r.Sound (site.store :: past)) (hc : Chronicle (site.store :: past)) :
    (r.call site).Sound (site.store :: past) ∧
      (Store.SameData (r.rest.step .blank site).2.store site.store ∨ ∃ v next, r.Writes site v next) := by
  cases h.stage with
  | begun hrest hmoved =>
    refine ⟨sound_listing hc hrest hmoved, Or.inl ?_⟩
    rw [hrest]
    exact Store.SameData.refl _
  | listed hrest hmoved =>
    refine ⟨sound_reading h hrest hmoved, Or.inl ?_⟩
    rw [hrest]
    exact Store.SameData.refl _
  | moving hreading hws hrest => exact sound_moving h hc hreading hws hrest
  | failed hrest =>
    rw [call_done hrest, hrest]
    exact ⟨h, Or.inl (Store.SameData.refl _)⟩

lemma Writes.workItems_of_ne (h : r.Writes site v next) {key : Key} (hkey : v.metadata.key ≠ key) :
    (r.rest.step .blank site).2.store.objects.workItems[key]? = site.store.objects.workItems[key]? := by
  have hput : (r.rest.step .blank site).2.store.objects =
      site.store.objects.put (.workItem (site.store.withItemStatusOf next v)) := h.data.objects
  rw [hput, Store.workItems_put]
  exact if_neg hkey

lemma Stage.count (h : r.Stage) {n : Nat} (hn : r.rest = .done (.ok n)) : r.moved.length = n := by
  cases h with
  | begun hrest => simp [hrest, Executor.round] at hn
  | listed hrest => simp [hrest] at hn
  | @moving now ws _ _ hrest =>
    obtain hdone | ⟨v, -, next, rest, answer, -, -, hwrite, -⟩ :=
      Executor.moveAll_cases r.runtime now r.moved.length ws
    · rw [hrest, hdone] at hn
      simpa using hn
    · rw [hrest, hwrite] at hn
      simp at hn
  | failed hrest => simp [hrest] at hn

theorem Sound.honest (h : r.Sound (site.store :: past)) (hc : Chronicle (site.store :: past)) :
    r.Honest site := by
  refine ⟨h.moves, fun key => ?_, fun n hn => h.stage.count hn⟩
  obtain hsame | ⟨v, next, hwrites⟩ := (h.call hc).2
  · right
    rw [hsame.objects]
  · by_cases hkey : v.metadata.key = key
    · exact Or.inl ⟨v, hwrites.listed, hkey ▸ hwrites.stored, hwrites.active⟩
    · exact Or.inr (hwrites.workItems_of_ne hkey)

end Round

/-! ## Runs -/

namespace Factory
variable {f g : Factory} {r : Round} {i : Nat}

lemma serve_stores (hkeyed : f.site.store.objects.Keyed) (r : Request) :
    (f.serve r).stores = f.site.store.stages r ++ f.stores := by
  rw [← Store.stages_tail hkeyed]
  rfl

structure Sound (f : Factory) : Prop where
  chronicle : Chronicle f.stores
  rounds : ∀ r ∈ f.rounds, r.Sound f.stores
  links : f.stores.IsChain fun t s => s.Relates (WorkItem.GoesOn f.rounds) t

lemma sound_new (clock : Instant) : (new clock).Sound :=
  ⟨.start, by simp [new], List.isChain_singleton _⟩

lemma Sound.serve (h : f.Sound) {r : Request} (hr : ∀ w, r ≠ .updateWorkItemStatus w) :
    (f.serve r).Sound := by
  have hkeyed := h.chronicle.keyed List.mem_cons_self
  constructor
  · rw [serve_stores hkeyed]
    exact h.chronicle.stages r
  · intro round hround
    rw [serve_stores hkeyed]
    exact (h.rounds round hround).mono (List.subset_append_right _ _)
  · rw [serve_stores hkeyed]
    refine Store.relates_stages (fun v owners version hsub => Or.inl ⟨owners, version, hsub, rfl⟩) h.links hkeyed ?_
    exact fun hdeletes => Store.relates_serve (fun v => Or.inl (.refl v)) hdeletes hr

lemma Sound.begin (h : f.Sound) (runtime : Int) : (f.begin runtime).Sound := by
  refine ⟨h.chronicle, fun r hr => ?_, h.links.imp fun t s hlink => hlink.mono fun v w hvw => ?_⟩
  · obtain rfl | hr := List.mem_cons.1 hr
    · exact Round.sound_round _ runtime
    · exact h.rounds r hr
  · exact hvw.mono fun r hr => ⟨r, List.mem_cons_of_mem _ hr, List.Subset.refl _⟩

/-- The next call of a round drops none of the writes of the rounds. -/
lemma moved_subset_set {rounds : List Round} (hr : rounds[i]? = some r) (site : Site) :
    ∀ q ∈ rounds, ∃ q' ∈ rounds.set i (r.call site), q.moved ⊆ q'.moved := by
  intro q hq
  obtain ⟨j, hj⟩ := List.mem_iff_getElem?.1 hq
  by_cases hij : i = j
  · subst hij
    obtain rfl : r = q := Option.some.inj (hr.symm.trans hj)
    obtain ⟨hi, -⟩ := List.getElem?_eq_some_iff.1 hr
    exact ⟨_, List.mem_set hi _, r.moved_subset_call site⟩
  · rw [← List.getElem?_set_ne hij (a := r.call site)] at hj
    exact ⟨q, List.mem_of_getElem? hj, List.Subset.refl _⟩

lemma Sound.callOf (h : f.Sound) (hr : f.rounds[i]? = some r) : (f.callOf i r).Sound := by
  have hround := h.rounds r (List.mem_of_getElem? hr)
  obtain ⟨hsound, heffect⟩ := hround.call h.chronicle
  have hsub : f.stores ⊆ (f.callOf i r).stores := List.subset_cons_self _ _
  have hlinks : f.stores.IsChain fun t s => s.Relates (WorkItem.GoesOn (f.callOf i r).rounds) t := by
    refine h.links.imp fun t s hlink => hlink.mono fun v w hvw => ?_
    exact hvw.mono (moved_subset_set hr f.site)
  obtain ⟨hi, -⟩ := List.getElem?_eq_some_iff.1 hr
  refine ⟨.turn h.chronicle (Client.step_turn _), fun q hq => ?_, hlinks.cons_cons ?_⟩
  · obtain hq | rfl := List.mem_or_eq_of_mem_set hq
    · exact (h.rounds q hq).mono hsub
    · exact hsound.mono hsub
  · obtain hsame | ⟨v, next, hwrites⟩ := heffect
    · exact hsame.relates fun w => Or.inl (.refl w)
    · refine Store.relates_of_commit (fun w => Or.inl (.refl w)) hwrites.data fun _ u hu => ?_
      obtain rfl : v = u := Option.some.inj (hwrites.stored.symm.trans hu)
      exact Or.inr ⟨_, List.mem_set hi _, hwrites.moved⟩

theorem Sound.step (h : f.Sound) (hstep : Step f g) : g.Sound := by
  cases hstep with
  | request hr => exact h.serve hr
  | clock now => exact ⟨h.chronicle, h.rounds, h.links⟩
  | begin runtime => exact h.begin runtime
  | call i =>
    unfold call
    split
    · rename_i r hr
      exact h.callOf hr
    · exact h

theorem sound_of_reachable (h : Reachable f) : f.Sound := by
  obtain ⟨clock, hsteps⟩ := h
  induction hsteps with
  | refl => exact sound_new clock
  | tail _ hstep ih => exact ih.step hstep

/-- At every moment of a run each work item has moved forward only, and every round has written, and will write
next, only over what it has listed. -/
theorem items_move_forward (h : Reachable f) :
    (∀ past, past <:+ f.stores → ∀ key, Forward f.rounds (life key past)) ∧
      ∀ r ∈ f.rounds, r.Honest f.site := by
  have hsound := sound_of_reachable h
  constructor
  · intro past hpast key
    refine forward_of_chain (fun r hr => (hsound.rounds r hr).moves) ?_
    exact isChain_life (hsound.links.suffix hpast) key
  · exact fun r hr => (hsound.rounds r hr).honest hsound.chronicle

/-! ## Rounds that overlap -/

/-- A work item of nobody. -/
def task : WorkItem :=
  ⟨Meta.new "jobs" "task" .blank, .bool true, .initial⟩

/-- Two rounds have listed the pending work item, and the clock is set back between their readings. The first one
starts the work item, so that the second one comes too late. A third one finishes it. -/
def contended : Factory :=
  let created := (new (.ofSecond 30)).serve (.createWorkItem ⟨.ofNat 1, .ofSecond 30⟩ task)
  let listed := (((created.begin (60 * giga)).begin (60 * giga)).call 0).call 1
  let read := ((listed.call 0).setClock (.ofSecond 10)).call 1
  let started := (read.call 0).call 1
  (((((started.setClock (.ofSecond 90)).begin (60 * giga)).call 0).call 0).call 0)

lemma Reachable.tail (h : Reachable f) (hstep : Step f g) : Reachable g := by
  obtain ⟨clock, hsteps⟩ := h
  exact ⟨clock, hsteps.tail hstep⟩

lemma contended_reachable : Reachable contended := by
  have hnew : Reachable (new (.ofSecond 30)) := ⟨_, .refl⟩
  have hcreated := hnew.tail
    (.request (r := .createWorkItem ⟨.ofNat 1, .ofSecond 30⟩ task) (fun w => by simp))
  have hlisted := (((hcreated.tail (.begin (60 * giga))).tail (.begin (60 * giga))).tail (.call 0)).tail (.call 1)
  have hread := ((hlisted.tail (.call 0)).tail (.clock (.ofSecond 10))).tail (.call 1)
  have hstarted := (hread.tail (.call 0)).tail (.call 1)
  have hthird := (hstarted.tail (.clock (.ofSecond 90))).tail (.begin (60 * giga))
  exact ((hthird.tail (.call 0)).tail (.call 0)).tail (.call 0)

/-- Two of three rounds write, and the work item goes through its whole course. -/
theorem items_move_forward_contended :
    Reachable contended ∧ contended.rounds.map (·.moved.length) = [1, 1, 0] ∧
      ((life task.metadata.key contended.stores).map (·.status)).destutter (· ≠ ·) =
        [⟨.succeeded, some (.ofSecond 30), some (.ofSecond 90)⟩, ⟨.running, some (.ofSecond 30), none⟩, .initial] ∧
      (∀ past, past <:+ contended.stores → ∀ key, Forward contended.rounds (life key past)) ∧
      ∀ r ∈ contended.rounds, r.Honest contended.site := by
  have hmoved : contended.rounds.map (·.moved.length) = [1, 1, 0] := by decide +kernel
  have hcourse : ((life task.metadata.key contended.stores).map (·.status)).destutter (· ≠ ·) =
      [⟨.succeeded, some (.ofSecond 30), some (.ofSecond 90)⟩, ⟨.running, some (.ofSecond 30), none⟩,
        .initial] := by decide +kernel
  exact ⟨contended_reachable, hmoved, hcourse, items_move_forward contended_reachable⟩

end Factory

end Timetable
