import Timetable.Proofs.Cron.Progress
import Timetable.Proofs.Store.Requests

/-!
# What a pass asks of the store

A pass writes the status that the children imply before it asks for anything else. After that it deletes
only children that it has seen, and creates only work items for fires later than the last launch of the
status written.
-/

namespace Timetable

namespace Client
variable {α β : Type} {P Q : Request → Prop} {stamp : Stamp} {site : Site}

/-- Whatever is answered, all requests of a client have a property. -/
def Every (P : Request → Prop) : Client α → Prop
  | done _ => True
  | listItems next => ∀ items, (next items).Every P
  | writeScheduleStatus x next => P (.updateScheduleStatus x) ∧ ∀ r, (next r).Every P
  | createItem w next => (∀ stamp, P (.createWorkItem stamp w)) ∧ ∀ r, (next r).Every P
  | writeItemStatus w next => P (.updateWorkItemStatus w) ∧ ∀ r, (next r).Every P
  | deleteItem key next => P (.deleteWorkItem key) ∧ ∀ r, (next r).Every P
  | readClock next => ∀ now, (next now).Every P
  | note _ next => next.Every P

/-- A client asks first that a schedule's status be written. What follows depends on the schedule as stored;
nothing follows if the request fails. -/
def WritesFirst (x : Schedule) (after : Schedule → Client α → Prop) : Client α → Prop
  | note _ next => next.WritesFirst x after
  | writeScheduleStatus asked next => asked = x ∧ (∀ y, after y (next (.ok y))) ∧
      ∀ e, (next (.error e)).Every fun _ => False
  | _ => False

lemma Every.mono {c : Client α} (h : c.Every P) (hPQ : ∀ r, P r → Q r) : c.Every Q := by
  induction c with
  | done a => trivial
  | listItems next ih => exact fun items => ih items (h items)
  | writeScheduleStatus x next ih => exact ⟨hPQ _ h.1, fun r => ih r (h.2 r)⟩
  | createItem w next ih => exact ⟨fun stamp => hPQ _ (h.1 stamp), fun r => ih r (h.2 r)⟩
  | writeItemStatus w next ih => exact ⟨hPQ _ h.1, fun r => ih r (h.2 r)⟩
  | deleteItem key next ih => exact ⟨hPQ _ h.1, fun r => ih r (h.2 r)⟩
  | readClock next ih => exact fun now => ih now (h now)
  | note r next ih => exact ih h

lemma Every.andThen {c : Client α} {f : α → Client β} (h : c.Every P) (hf : ∀ a, (f a).Every P) :
    (c.andThen f).Every P := by
  induction c with
  | done a => exact hf a
  | listItems next ih => exact fun items => ih items (h items)
  | writeScheduleStatus x next ih => exact ⟨h.1, fun r => ih r (h.2 r)⟩
  | createItem w next ih => exact ⟨h.1, fun r => ih r (h.2 r)⟩
  | writeItemStatus w next ih => exact ⟨h.1, fun r => ih r (h.2 r)⟩
  | deleteItem key next ih => exact ⟨h.1, fun r => ih r (h.2 r)⟩
  | readClock next ih => exact fun now => ih now (h now)
  | note r next ih => exact ih h

lemma Every.step {c : Client α} (h : c.Every P) : (c.step stamp site).1.Every P := by
  cases c with
  | done a => exact h
  | listItems next => exact h _
  | writeScheduleStatus x next => exact h.2 _
  | createItem w next => exact h.2 _
  | writeItemStatus w next => exact h.2 _
  | deleteItem key next => exact h.2 _
  | readClock next => exact h _
  | note r next => exact h

def steps (stamps : List Stamp) (c : Client α) (site : Site) : Client α × Site :=
  stamps.foldl (fun state stamp => state.1.step stamp state.2) (c, site)

/-- Running a client to its end is making its calls one by one. -/
theorem run_steps (uids : Nat → Uid) (c : Client α) (site : Site) (minted : Nat) :
    ∃ stamps, c.steps stamps site = (done (c.run uids site minted).1, (c.run uids site minted).2.1) := by
  induction c generalizing site minted with
  | done a => exact ⟨[], rfl⟩
  | listItems next ih =>
    obtain ⟨stamps, h⟩ := ih site.store.objects.items site minted
    exact ⟨.blank :: stamps, h⟩
  | writeScheduleStatus x next ih =>
    obtain ⟨stamps, h⟩ := ih (site.store.updateScheduleStatus x).1 _ minted
    exact ⟨.blank :: stamps, h⟩
  | createItem w next ih =>
    obtain ⟨stamps, h⟩ := ih (site.store.createWorkItem ⟨uids minted, site.clock⟩ w).1 _ _
    exact ⟨⟨uids minted, site.clock⟩ :: stamps, h⟩
  | writeItemStatus w next ih =>
    obtain ⟨stamps, h⟩ := ih (site.store.updateWorkItemStatus w).1 _ minted
    exact ⟨.blank :: stamps, h⟩
  | deleteItem key next ih =>
    obtain ⟨stamps, h⟩ := ih (site.store.deleteWorkItem key).1 _ minted
    exact ⟨.blank :: stamps, h⟩
  | readClock next ih =>
    obtain ⟨stamps, h⟩ := ih site.clock site minted
    exact ⟨.blank :: stamps, h⟩
  | note r next ih =>
    obtain ⟨stamps, h⟩ := ih { site with records := r :: site.records } minted
    exact ⟨.blank :: stamps, h⟩

def request? (stamp : Stamp) : Client α → Option Request
  | writeScheduleStatus x _ => some (.updateScheduleStatus x)
  | createItem w _ => some (.createWorkItem stamp w)
  | writeItemStatus w _ => some (.updateWorkItemStatus w)
  | deleteItem key _ => some (.deleteWorkItem key)
  | _ => none

lemma Every.request {c : Client α} (h : c.Every P) {r : Request} (hr : c.request? stamp = some r) :
    P r := by
  cases c with
  | writeScheduleStatus x next => exact Option.some.inj hr ▸ h.1
  | createItem w next => exact Option.some.inj hr ▸ h.1 stamp
  | writeItemStatus w next => exact Option.some.inj hr ▸ h.1
  | deleteItem key next => exact Option.some.inj hr ▸ h.1
  | _ => simp [request?] at hr

lemma step_store (c : Client α) :
    (c.step stamp site).2.store = ((c.request? stamp).map site.store.serve).getD site.store := by
  cases c with
  | _ => rfl

lemma step_turn (c : Client α) : site.store.Turn (c.step stamp site).2.store := by
  cases c with
  | writeScheduleStatus x next => exact (Store.stages_turns site.store (.updateScheduleStatus x)).1
  | createItem w next => exact (Store.stages_turns site.store (.createWorkItem stamp w)).1
  | writeItemStatus w next => exact (Store.stages_turns site.store (.updateWorkItemStatus w)).1
  | deleteItem key next => exact (Store.stages_turns site.store (.deleteWorkItem key)).1
  | _ => exact Or.inl (Store.SameData.refl _)

end Client

/-- The schedule of a view with the status that the children imply. -/
def View.settled (view : View) : Schedule :=
  { view.schedule with status := view.schedule.desiredStatus view.children }

namespace Pass

/-- What a pass may ask for once the status is written: `y` is the schedule as stored then. -/
def Asks (view : View) (y : Schedule) : Request → Prop
  | .createWorkItem _ w => ∃ fire, WorkItem.ofTemplate y fire = .ok w ∧
      y.status.lastScheduled.getD y.metadata.created < fire ∧ fire.nano = 0
  | .deleteWorkItem key => ∃ w ∈ view.children, w.metadata.key = key
  | _ => False

variable {view : View} {y : Schedule} {key : Key} {ws : List WorkItem}

lemma mem_of_mem_oldestExcess {α : Type} {start : α → Option Instant} {limit : Nat} {items : List α}
    {a : α} (h : a ∈ oldestExcess start limit items) : a ∈ items :=
  List.mem_mergeSort.1 (List.mem_of_mem_take h)

lemma mem_of_mem_excess {spec : ScheduleSpec} {w : WorkItem} (h : w ∈ excess spec ws) : w ∈ ws := by
  unfold excess at h
  dsimp only at h
  obtain h | h := List.mem_append.1 h
  · split at h
    · simp at h
    · exact List.mem_of_mem_filter (mem_of_mem_oldestExcess h)
  · split at h
    · simp at h
    · exact List.mem_of_mem_filter (mem_of_mem_oldestExcess h)

lemma deleteChild_every {w : WorkItem} (hw : w ∈ view.children) :
    (deleteChild key w).Every (Asks view y) := by
  refine ⟨⟨w, hw, rfl⟩, fun r => ?_⟩
  dsimp only
  split
  · trivial
  · trivial
  · trivial

lemma deleteAll_every (hws : ∀ w ∈ ws, w ∈ view.children) :
    (deleteAll key ws).Every (Asks view y) := by
  induction ws with
  | nil => trivial
  | cons w ws ih =>
    refine (deleteChild_every (hws w List.mem_cons_self)).andThen fun _ => ?_
    exact ih fun v hv => hws v (List.mem_cons_of_mem w hv)

lemma launch_every {fire : Instant} {wait : Action}
    (hfire : y.status.lastScheduled.getD y.metadata.created < fire ∧ fire.nano = 0) :
    (launch key y fire wait).Every (Asks view y) := by
  unfold launch
  split
  · trivial
  · rename_i w hw
    refine ⟨fun _ => ⟨fire, hw, hfire⟩, fun r => ?_⟩
    dsimp only
    split
    · trivial
    · trivial
    · trivial

lemma serve_every {active : List WorkItem} {fire : Instant} {deadline : Option Int} {now : Instant}
    {wait : Action} (hactive : ∀ w ∈ active, w ∈ view.children)
    (hfire : y.status.lastScheduled.getD y.metadata.created < fire ∧ fire.nano = 0) :
    (serve key y active fire deadline now wait).Every (Asks view y) := by
  unfold serve
  split_ifs
  · trivial
  · split
    · trivial
    · exact (deleteAll_every hactive).andThen fun _ => launch_every hfire
    · exact launch_every hfire

lemma schedule_every {cap : Nat} {active : List WorkItem} (hactive : ∀ w ∈ active, w ∈ view.children) :
    (schedule cap key y active).Every (Asks view y) := by
  unfold schedule
  split_ifs
  · trivial
  · intro now
    dsimp only
    split
    · trivial
    · trivial
    · rename_i d deadline hjudge
      split
      · trivial
      · rename_i fire hfire
        exact serve_every hactive (judge_missed_later hjudge hfire)

def settle (cap : Nat) (key : Key) (view : View) (y : Schedule) : Client Outcome :=
  (deleteAll key (excess y.spec view.children)).andThen fun () =>
    schedule cap key y (Buckets.ofItems view.children).active

lemma settle_every (cap : Nat) (key : Key) (view : View) (y : Schedule) :
    (settle cap key view y).Every (Asks view y) := by
  refine (deleteAll_every fun w hw => mem_of_mem_excess hw).andThen fun _ => ?_
  exact schedule_every fun w hw => List.mem_of_mem_filter hw

lemma noteAll_bind {α β : Type} (notices : List Notice) (f : Unit → Client α) (g : α → Client β) :
    (noteAll key notices >>= f).andThen g = (noteAll key notices).andThen fun a => (f a).andThen g := by
  induction notices with
  | nil => rfl
  | cons n notices ih => exact congrArg (Client.note ⟨key, n⟩) ih

lemma noteAll_every {α : Type} {P : Request → Prop} {notices : List Notice} {f : Unit → Client α}
    (hf : (f ()).Every P) : ((noteAll key notices).andThen f).Every P := by
  induction notices with
  | nil => exact hf
  | cons n notices ih => exact ih

lemma noteAll_writesFirst {α : Type} {x : Schedule} {after : Schedule → Client α → Prop}
    {notices : List Notice} {f : Unit → Client α} (hf : (f ()).WritesFirst x after) :
    ((noteAll key notices).andThen f).WritesFirst x after := by
  induction notices with
  | nil => exact hf
  | cons n notices ih => exact ih

/-- A pass writes the status first, or finds it written already. In both cases it settles what is left. -/
theorem run_cases (cap : Nat) (key : Key) (view : View) {after : Schedule → Client Outcome → Prop}
    (hafter : ∀ y, after y (settle cap key view y)) :
    (run cap key (some view)).WritesFirst view.settled after ∨
      view.settled = view.schedule ∧ ∃ notices, run cap key (some view) =
        (noteAll key notices).andThen fun () => settle cap key view view.schedule := by
  unfold run writeStatus
  dsimp only
  rw [noteAll_bind]
  by_cases hsame : view.schedule.desiredStatus view.children = view.schedule.status
  · right
    constructor
    · unfold View.settled
      rw [hsame]
    · simp only [if_pos hsame]
      exact ⟨_, rfl⟩
  · left
    refine noteAll_writesFirst ?_
    rw [if_neg hsame]
    exact ⟨rfl, hafter, fun e => trivial⟩

theorem run_every (cap : Nat) (key : Key) (view : View) :
    (run cap key (some view)).WritesFirst view.settled
        (fun y c => c.Every (Asks view y)) ∨
      view.settled = view.schedule ∧
        (run cap key (some view)).Every (Asks view view.schedule) := by
  obtain hfirst | ⟨hsame, notices, hrun⟩ := run_cases cap key view (settle_every cap key view)
  · exact Or.inl hfirst
  · rw [hrun]
    exact Or.inr ⟨hsame, noteAll_every (settle_every cap key view view.schedule)⟩

end Pass

end Timetable
