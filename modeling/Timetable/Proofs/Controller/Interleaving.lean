import Mathlib.Logic.Relation
import Timetable.Controller.Pool
import Timetable.Proofs.Controller.Calls
import Timetable.Proofs.Object.Children
import Timetable.Proofs.Replica.Objects
import Timetable.Proofs.Store.Lineage

/-!
# Interleaved passes

Any number of passes work on one store, each from a view of past states of it. Their calls come in any
order, with the requests of other clients and changes of the clock in between, and a pass may be given up
at any moment. No status that a pass writes sets the last launch of its schedule back.
-/

namespace Timetable

/-- A pass under way: its key, what it saw of its schedule, and what is left of it. -/
structure Running where
  key : Key
  view : View
  rest : Client Outcome

/-- A site with the stores before, the passes under way, and what passes have achieved so far: the statuses
written, each with the view that it came from, and the work items launched, each as asked for and as
stored. All lists have the last one first. -/
structure World where
  site : Site
  past : List Store
  passes : List Running
  written : List (View × Schedule)
  launched : List (WorkItem × WorkItem)

namespace Replica

/-- A replica shows one of the stores. -/
def Shows (r : Replica) (stores : List Store) : Prop :=
  ∃ t ∈ stores, r.objects = t.objects

/-- A schedule and the children that it controls, as a replica has them. -/
def viewOf (r : Replica) (x : Schedule) : View :=
  ⟨x, (r.childrenOf x.metadata.key).filter fun w => w.metadata.isControlledBy x.metadata⟩

lemma view?_eq (r : Replica) (key : Key) : r.view? key = r.objects.schedules[key]?.map r.viewOf := rfl

end Replica

namespace Client
variable {α : Type}

def written? (site : Site) : Client α → Option Schedule
  | writeScheduleStatus x _ => (site.store.updateScheduleStatus x).1.toOption
  | _ => none

/-- The work item launched by the next call, if any, as asked for and as stored. -/
def launched? (stamp : Stamp) (site : Site) : Client α → Option (WorkItem × WorkItem)
  | createItem w _ => (site.store.createWorkItem stamp w).1.toOption.map (w, ·)
  | _ => none

end Client

namespace World

def new (clock : Instant) : World := ⟨⟨.empty, clock, []⟩, [], [], [], []⟩

def stores (w : World) : List Store := w.site.store :: w.past

def serve (w : World) (r : Request) : World :=
  { w with
    site := { w.site with store := w.site.store.serve r }
    past := (w.site.store.stages r).tail ++ w.stores }

def setClock (w : World) (now : Instant) : World :=
  { w with site := { w.site with clock := now } }

/-- The world after the next call of a pass. -/
def callOf (w : World) (i : Nat) (p : Running) (stamp : Stamp) : World where
  site := (p.rest.step stamp w.site).2
  past := w.stores
  passes := w.passes.set i { p with rest := (p.rest.step stamp w.site).1 }
  written := ((p.rest.written? w.site).map (p.view, ·)).toList ++ w.written
  launched := (p.rest.launched? stamp w.site).toList ++ w.launched

/-- The world after the next call of the pass at an index, if there is one. -/
def call (w : World) (i : Nat) (stamp : Stamp) : World :=
  match w.passes[i]? with
  | some p => w.callOf i p stamp
  | none => w

/-- What may happen next. A pass finds its schedule in a replica of any earlier store, and the children in
another one, since the replica may move between. -/
inductive Step (w : World) : World → Prop
  | request {r : Request} : r.Permitted w.stores → Step w (w.serve r)
  | clock (now : Instant) : Step w (w.setClock now)
  | start {r m : Replica} {key : Key} {x : Schedule} (cap : Nat) :
      r.Shows w.stores → r.objects.schedules[key]? = some x → m.Shows w.stores →
      Step w { w with passes := ⟨key, m.viewOf x, Pass.run cap key (some (m.viewOf x))⟩ :: w.passes }
  | call (i : Nat) (stamp : Stamp) : Step w (w.call i stamp)
  | leave (i : Nat) : Step w { w with passes := w.passes.eraseIdx i }

def Reachable (w : World) : Prop :=
  ∃ clock, Relation.ReflTransGen Step (new clock) w

lemma serve_stores {w : World} (hkeyed : w.site.store.objects.Keyed) (r : Request) :
    (w.serve r).stores = w.site.store.stages r ++ w.stores := by
  rw [← Store.stages_tail hkeyed]
  rfl

end World

/-! ## What a pass has seen -/

/-- A schedule is the one that a pass looked at, with the status that the pass decided on, as some store
held it. -/
def View.Settled (stores : List Store) (view : View) (y : Schedule) : Prop :=
  Held stores y ∧ y.metadata.key = view.schedule.metadata.key ∧
    y.metadata.uid = view.schedule.metadata.uid ∧
    y.metadata.created = view.schedule.metadata.created ∧ y.status = view.settled.status

/-- A pass saw what some stores held, and has its status still to write or asks for what follows. -/
structure Running.Sound (stores : List Store) (p : Running) : Prop where
  schedule : Held stores p.view.schedule
  children : ∀ c ∈ p.view.children, ∃ t ∈ stores, .workItem c ∈ t.objects
  program : p.rest.WritesFirst p.view.settled (fun y c => c.Every (Pass.Asks p.view y)) ∨
    p.rest.Every fun r => ∃ y, p.view.Settled stores y ∧ Pass.Asks p.view y r

section
variable {stores old : List Store} {p : Running} {view : View} {y : Schedule}

lemma View.Settled.mono (h : view.Settled old y) (hsub : old ⊆ stores) : view.Settled stores y :=
  ⟨h.1.mono hsub, h.2⟩

lemma Running.Sound.mono (h : p.Sound old) (hsub : old ⊆ stores) : p.Sound stores := by
  constructor
  · exact h.schedule.mono hsub
  · intro c hc
    obtain ⟨t, ht, hchild⟩ := h.children c hc
    exact ⟨t, hsub ht, hchild⟩
  · obtain hfirst | hevery := h.program
    · exact Or.inl hfirst
    · refine Or.inr (hevery.mono ?_)
      rintro r ⟨y, hy, hr⟩
      exact ⟨y, hy.mono hsub, hr⟩

lemma View.settled_continues (view : View) : view.schedule.Continues view.settled := by
  obtain ⟨last, hlast, -, hrecorded, -⟩ :=
    Schedule.desiredStatus_lastScheduled view.schedule view.children
  exact ⟨rfl, rfl, rfl, fun t ht => ⟨last, hlast, hrecorded t ht⟩⟩

/-- The last launch of a status is no earlier than the creation and the readable fires of the children in a
view. -/
def View.Covers (view : View) (y : Schedule) : Prop :=
  ∃ last, y.status.lastScheduled = some last ∧ y.metadata.created ≤ last ∧
    ∀ w ∈ view.children, ∀ t, w.scheduledTime = .ok t → t ≤ last

lemma View.covers_of_status (hcreated : y.metadata.created = view.schedule.metadata.created)
    (hstatus : y.status = view.settled.status) : view.Covers y := by
  obtain ⟨last, hlast, hafter, -, hchildren⟩ :=
    Schedule.desiredStatus_lastScheduled view.schedule view.children
  refine ⟨last, ?_, hcreated ▸ hafter, hchildren⟩
  rw [hstatus]
  exact hlast

end

/-! ## Calls -/

section
variable {stores past : List Store} {s : Store} {site : Site} {stamp : Stamp} {p : Running} {view : View}

/-- A pass's status is written only over the schedule that the pass saw. -/
theorem settled_cases (hc : Chronicle (s :: past))
    (hview : Held (s :: past) view.schedule) :
    (∃ e t, s.updateScheduleStatus view.settled = (.error e, t) ∧ Store.SameData t s) ∨
      .schedule view.schedule ∈ s.objects ∧
      ∃ t, s.updateScheduleStatus view.settled =
          (.ok (s.withStatusOf view.settled view.schedule), t) ∧
        Store.SameData t (s.commit .modified (.schedule (s.withStatusOf view.settled view.schedule))) := by
  obtain herror | ⟨current, hget, hversion, hok⟩ := Store.updateScheduleStatus_cases s view.settled
  · exact Or.inl herror
  · have hs : s ∈ s :: past := List.mem_cons_self
    have hcurrent := Store.mem_of_get? hc hs hget
    obtain ⟨t, ht, hseen⟩ := hview
    have hsame : current = view.schedule :=
      Object.schedule.inj (hc.mem_eq hs ht hcurrent hseen hversion)
    rw [hsame] at hcurrent hok
    exact Or.inr ⟨hcurrent, hok⟩

/-- While the status is still to be written a call changes no data, or writes the status over what the pass
saw. -/
theorem Client.WritesFirst.step {α : Type} {c : Client α} {after : Schedule → Client α → Prop}
    (h : c.WritesFirst view.settled after) (hc : Chronicle (site.store :: past))
    (hview : Held (site.store :: past) view.schedule) (stamp : Stamp) :
    (Store.SameData (c.step stamp site).2.store site.store ∧ c.written? site = none ∧
        ((c.step stamp site).1.WritesFirst view.settled after ∨
          (c.step stamp site).1.Every fun _ => False)) ∨
      .schedule view.schedule ∈ site.store.objects ∧
        c.written? site = some (site.store.withStatusOf view.settled view.schedule) ∧
        Store.SameData (c.step stamp site).2.store
          (site.store.commit .modified (.schedule (site.store.withStatusOf view.settled view.schedule))) ∧
        after (site.store.withStatusOf view.settled view.schedule) (c.step stamp site).1 := by
  cases c with
  | note r next => exact Or.inl ⟨Store.SameData.refl _, rfl, Or.inl h⟩
  | writeScheduleStatus x next =>
    obtain ⟨rfl, hok, herror⟩ := h
    obtain ⟨e, t, he, hsame⟩ | ⟨hcurrent, t, hy, hdata⟩ := settled_cases hc hview
    · simp only [Client.step, Client.written?, he]
      exact Or.inl ⟨hsame, rfl, Or.inr (herror e)⟩
    · simp only [Client.step, Client.written?, hy]
      exact Or.inr ⟨hcurrent, rfl, hdata, hok _⟩
  | _ => exact h.elim

lemma Client.WritesFirst.launched?_eq {α : Type} {c : Client α} {x : Schedule}
    {after : Schedule → Client α → Prop} (h : c.WritesFirst x after) : c.launched? stamp site = none := by
  cases c with
  | note r next => rfl
  | writeScheduleStatus y next => rfl
  | _ => exact h.elim

lemma withStatusOf_mem {t : Store} {x current : Schedule}
    (h : Store.SameData t (s.commit .modified (.schedule (s.withStatusOf x current)))) :
    .schedule (s.withStatusOf x current) ∈ t.objects := by
  have hput : t.objects = s.objects.put (.schedule (s.withStatusOf x current)) := h.objects
  rw [hput, Listing.mem_def, Listing.get?_put, if_pos ⟨rfl, rfl⟩]

lemma Pass.Asks.permitted {y : Schedule} {r : Request} (h : Asks view y r) : r.Permitted stores := by
  cases r with
  | createWorkItem stamp w => trivial
  | deleteWorkItem key => trivial
  | _ => exact h.elim

lemma Pass.Asks.stages {y : Schedule} {r : Request} (h : Asks view y r) : s.stages r = [s.serve r] := by
  cases r with
  | createWorkItem stamp w => rfl
  | deleteWorkItem key => rfl
  | _ => exact h.elim

structure CallSound (stamp : Stamp) (site : Site) (past : List Store) (p : Running) : Prop where
  lineage : Lineage ((p.rest.step stamp site).2.store :: site.store :: past)
  sound : Running.Sound ((p.rest.step stamp site).2.store :: site.store :: past)
    { p with rest := (p.rest.step stamp site).1 }
  written : ∀ y, p.rest.written? site = some y → p.view.Covers y

lemma callSound_of_writesFirst (hc : Chronicle (site.store :: past)) (hl : Lineage (site.store :: past))
    (hp : p.Sound (site.store :: past))
    (hfirst : p.rest.WritesFirst p.view.settled fun y c => c.Every (Pass.Asks p.view y)) :
    CallSound stamp site past p := by
  have hlater : ∀ t : Store, p.Sound (t :: site.store :: past) := fun t => hp.mono (List.subset_cons_self t _)
  obtain ⟨hsame, hnone, hrest⟩ | ⟨hcurrent, hwritten, hdata, hafter⟩ := hfirst.step hc hp.schedule stamp
  · constructor
    · exact hl.cons (.of_sameData hsame)
    · refine ⟨(hlater _).schedule, (hlater _).children, hrest.imp_right fun hnothing => ?_⟩
      exact hnothing.mono fun r hr => hr.elim
    · intro y hy
      rw [hnone] at hy
      simp at hy
  · have hcontinues :
        p.view.schedule.Continues (site.store.withStatusOf p.view.settled p.view.schedule) :=
      ⟨rfl, rfl, rfl, p.view.settled_continues.last⟩
    have hsettled : p.view.Settled ((p.rest.step stamp site).2.store :: site.store :: past)
        (site.store.withStatusOf p.view.settled p.view.schedule) :=
      ⟨⟨_, List.mem_cons_self, withStatusOf_mem hdata⟩, rfl, rfl, rfl, rfl⟩
    constructor
    · exact hl.cons (.of_edit hcurrent hcontinues hdata)
    · refine ⟨(hlater _).schedule, (hlater _).children, Or.inr ?_⟩
      exact hafter.mono fun r hr => ⟨_, hsettled, hr⟩
    · intro y hy
      rw [hwritten] at hy
      rw [← Option.some.inj hy]
      exact View.covers_of_status rfl rfl

lemma callSound_of_every (hc : Chronicle (site.store :: past)) (hl : Lineage (site.store :: past))
    (hp : p.Sound (site.store :: past))
    (hevery : p.rest.Every fun r => ∃ y, p.view.Settled (site.store :: past) y ∧ Pass.Asks p.view y r) :
    CallSound stamp site past p := by
  have hsub : ∀ t : Store, site.store :: past ⊆ t :: site.store :: past := fun t =>
    List.subset_cons_self t _
  constructor
  · rw [Client.step_store]
    cases hr : p.rest.request? stamp with
    | none => exact hl.cons (.of_sameData (Store.SameData.refl _))
    | some r =>
      obtain ⟨y, -, hasks⟩ := hevery.request hr
      have hstages := hl.stages hc hasks.permitted
      rwa [hasks.stages] at hstages
  · refine ⟨(hp.mono (hsub _)).schedule, (hp.mono (hsub _)).children, Or.inr ?_⟩
    refine hevery.step.mono ?_
    rintro r ⟨y, hy, hr⟩
    exact ⟨y, hy.mono (hsub _), hr⟩
  · intro y hy
    obtain ⟨key, view, rest⟩ := p
    cases rest with
    | writeScheduleStatus x next =>
      obtain ⟨z, -, hasks⟩ := hevery.1
      exact hasks.elim
    | _ => simp [Client.written?] at hy

theorem callSound (hc : Chronicle (site.store :: past)) (hl : Lineage (site.store :: past))
    (hp : p.Sound (site.store :: past)) : CallSound stamp site past p := by
  obtain hfirst | hevery := hp.program
  · exact callSound_of_writesFirst hc hl hp hfirst
  · exact callSound_of_every hc hl hp hevery

end

/-! ## Runs -/

namespace World
variable {w v : World}

structure Sound (w : World) : Prop where
  chronicle : Chronicle w.stores
  lineage : Lineage w.stores
  passes : ∀ p ∈ w.passes, p.Sound w.stores
  written : ∀ e ∈ w.written, e.1.Covers e.2

lemma sound_new (clock : Instant) : (new clock).Sound :=
  ⟨.start, lineage_empty, by simp [new], by simp [new]⟩

lemma Sound.serve (h : w.Sound) {r : Request} (hr : r.Permitted w.stores) : (w.serve r).Sound := by
  constructor
  · rw [serve_stores (h.chronicle.keyed List.mem_cons_self)]
    exact h.chronicle.stages r
  · rw [serve_stores (h.chronicle.keyed List.mem_cons_self)]
    exact h.lineage.stages h.chronicle hr
  · intro p hp
    rw [serve_stores (h.chronicle.keyed List.mem_cons_self)]
    exact (h.passes p hp).mono (List.subset_append_right _ _)
  · exact h.written

lemma held_of_lookup {t : Store} {r : Replica} {key : Key} {x : Schedule} (hc : Chronicle w.stores)
    (ht : t ∈ w.stores) (hobjects : r.objects = t.objects) (hx : r.objects.schedules[key]? = some x) :
    .schedule x ∈ t.objects := by
  rw [hobjects] at hx
  exact Store.mem_of_get? hc ht hx

lemma held_of_viewOf {t : Store} {m : Replica} {x : Schedule} (hc : Chronicle w.stores)
    (ht : t ∈ w.stores) (hobjects : m.objects = t.objects) :
    ∀ c ∈ (m.viewOf x).children, .workItem c ∈ t.objects := by
  intro c hmem
  obtain ⟨child, -, hchild⟩ := List.mem_filterMap.1 (List.mem_of_mem_filter hmem)
  have hget : t.objects.get? .workItem child = some (.workItem c) := by
    rw [Listing.get?_workItem, ← hobjects, hchild]
    rfl
  exact (hc.keyed ht).mem hget

lemma sound_run {stores : List Store} {view : View} (hschedule : Held stores view.schedule)
    (hchildren : ∀ c ∈ view.children, ∃ t ∈ stores, .workItem c ∈ t.objects) (cap : Nat) (key : Key) :
    Running.Sound stores ⟨key, view, Pass.run cap key (some view)⟩ := by
  refine ⟨hschedule, hchildren, ?_⟩
  obtain hfirst | ⟨hsame, hevery⟩ := Pass.run_every cap key view
  · exact Or.inl hfirst
  · refine Or.inr (hevery.mono fun r hr => ⟨view.schedule, ?_, hr⟩)
    exact ⟨hschedule, rfl, rfl, rfl, by rw [hsame]⟩

lemma Sound.callOf (h : w.Sound) {i : Nat} {p : Running} (hp : p ∈ w.passes) (stamp : Stamp) :
    (w.callOf i p stamp).Sound := by
  have hcall : CallSound stamp w.site w.past p := callSound h.chronicle h.lineage (h.passes p hp)
  constructor
  · exact .turn h.chronicle (Client.step_turn _)
  · exact hcall.lineage
  · intro q hq
    obtain hmem | rfl := List.mem_or_eq_of_mem_set hq
    · exact (h.passes q hmem).mono (List.subset_cons_self _ _)
    · exact hcall.sound
  · intro e he
    obtain hmem | hmem := List.mem_append.1 he
    · obtain ⟨y, hy, rfl⟩ := Option.map_eq_some_iff.1 (Option.mem_toList.1 hmem)
      exact hcall.written y hy
    · exact h.written e hmem

theorem Sound.step (h : w.Sound) (hstep : Step w v) : v.Sound := by
  cases hstep with
  | request hr => exact h.serve hr
  | clock now => exact ⟨h.chronicle, h.lineage, h.passes, h.written⟩
  | @start r m key x cap hr hx hm =>
    obtain ⟨t, ht, hrt⟩ := hr
    obtain ⟨u, hu, hmu⟩ := hm
    refine ⟨h.chronicle, h.lineage, fun p hp => ?_, h.written⟩
    obtain rfl | hp := List.mem_cons.1 hp
    · apply sound_run
      · exact ⟨t, ht, held_of_lookup h.chronicle ht hrt hx⟩
      · exact fun c hc => ⟨u, hu, held_of_viewOf h.chronicle hu hmu c hc⟩
    · exact h.passes p hp
  | call i stamp =>
    unfold call
    split
    · rename_i p hp
      exact h.callOf (List.mem_of_getElem? hp) stamp
    · exact h
  | leave i => exact ⟨h.chronicle, h.lineage, fun p hp => h.passes p (List.mem_of_mem_eraseIdx hp), h.written⟩

theorem sound_of_reachable (h : Reachable w) : w.Sound := by
  obtain ⟨clock, hsteps⟩ := h
  induction hsteps with
  | refl => exact sound_new clock
  | tail _ hstep ih => exact ih.step hstep

lemma call_eq {i : Nat} {p : Running} (hp : w.passes[i]? = some p) (stamp : Stamp) :
    w.call i stamp = w.callOf i p stamp := by
  unfold call
  rw [hp]

lemma steps_calls {i : Nat} {p : Running} (hp : w.passes[i]? = some p) (stamps : List Stamp) :
    ∃ v, Relation.ReflTransGen Step w v ∧ v.site = (p.rest.steps stamps w.site).2 ∧
      v.passes[i]? = some { p with rest := (p.rest.steps stamps w.site).1 } := by
  induction stamps generalizing w p with
  | nil => exact ⟨w, .refl, rfl, hp⟩
  | cons stamp stamps ih =>
    have hcall := call_eq hp stamp
    obtain ⟨hi, -⟩ := List.getElem?_eq_some_iff.1 hp
    have hnext : (w.callOf i p stamp).passes[i]? =
        some { p with rest := (p.rest.step stamp w.site).1 } := List.getElem?_set_self hi
    obtain ⟨v, hsteps, hsite, hpass⟩ := ih hnext
    exact ⟨v, .head (hcall ▸ .call i stamp) hsteps, hsite, hpass⟩

/-- A pass that is run to its end without interruption is one way in which the calls may come. -/
theorem run_calls {i : Nat} {p : Running} (hp : w.passes[i]? = some p) (uids : Nat → Uid)
    (minted : Nat) : ∃ v, Relation.ReflTransGen Step w v ∧
      v.site = (p.rest.run uids w.site minted).2.1 ∧
      v.passes[i]? = some { p with rest := .done (p.rest.run uids w.site minted).1 } := by
  obtain ⟨stamps, hrun⟩ := p.rest.run_steps uids w.site minted
  have hcalls := steps_calls hp stamps
  rwa [hrun] at hcalls

/-- The last launch stored under a UID never goes back, and every status that a pass writes covers the
creation and the view that it was computed from. -/
theorem last_never_decreases (h : Reachable w) :
    (w.stores.Pairwise fun newer older => ∀ x y, .schedule x ∈ older.objects →
      .schedule y ∈ newer.objects → x.metadata.uid = y.metadata.uid →
        NoLater x.status.lastScheduled y.status.lastScheduled) ∧
      ∀ e ∈ w.written, e.1.Covers e.2 := by
  have hsound := sound_of_reachable h
  refine ⟨hsound.lineage.pairwise.imp ?_, hsound.written⟩
  intro newer older hdescends x y hx hy huid
  exact (hdescends x y hx hy huid).last

/-! ## A race -/

def begin (w : World) (key : Key) : World :=
  let r := (Replica.empty.replace w.site.store.objects.toList w.site.store.version).1
  match r.view? key with
  | some view => { w with passes := ⟨key, view, Pass.run 100 key (some view)⟩ :: w.passes }
  | none => w

/-- A pass begins from a replica that shows an earlier store. -/
def beginFrom (w : World) (t : Store) (key : Key) : World :=
  match (Replica.empty.replace t.objects.toList t.version).1.view? key with
  | some view => { w with passes := ⟨key, view, Pass.run 100 key (some view)⟩ :: w.passes }
  | none => w

lemma Reachable.tail (h : Reachable w) (hstep : Step w v) : Reachable v := by
  obtain ⟨clock, hsteps⟩ := h
  exact ⟨clock, hsteps.tail hstep⟩

lemma Sound.beginFrom (h : w.Sound) {t : Store} (ht : t ∈ w.stores) (key : Key) :
    Step w (w.beginFrom t key) ∨ w.beginFrom t key = w := by
  have hagrees : Replica.empty.Agrees t.objects := by
    intro o ho p hp hversion
    obtain hp | hp := hp
    · rw [Listing.mem_def] at hp
      simp [Replica.empty] at hp
    · exact h.chronicle.mem_eq ht ht hp ho hversion
  have hobjects := Replica.replace_objects Listing.keyed_empty (h.chronicle.keyed ht) hagrees t.version
  unfold World.beginFrom
  split
  · rename_i view hview
    rw [Replica.view?_eq] at hview
    obtain ⟨x, hx, rfl⟩ := Option.map_eq_some_iff.1 hview
    exact Or.inl (.start 100 ⟨t, ht, hobjects⟩ hx ⟨t, ht, hobjects⟩)
  · exact Or.inr rfl

lemma Reachable.begin (h : Reachable w) (key : Key) : Reachable (w.begin key) := by
  have hbegun : Step w (w.begin key) ∨ w.begin key = w :=
    (sound_of_reachable h).beginFrom List.mem_cons_self key
  obtain hstep | hsame := hbegun
  · exact h.tail hstep
  · rw [hsame]
    exact h

/-- A run may begin with the creation of a schedule. -/
lemma reachable_created (clock : Instant) (stamp : Stamp) (x : Schedule) :
    Reachable ((new clock).serve (.createSchedule stamp x)) := by
  have hunused : Request.Permitted (new clock).stores (.createSchedule stamp x) := by
    rintro y ⟨t, ht, hy⟩
    rw [List.mem_singleton.1 ht, Listing.mem_def] at hy
    simp [new, Store.empty] at hy
  have hnew : Reachable (new clock) := ⟨clock, .refl⟩
  exact hnew.tail (.request hunused)

def racedKey : Key := Schedule.minutely.metadata.key

/-- Two passes started from one view, and the first one has launched a work item. -/
def halfway : World :=
  ((((((new (.ofSecond 0)).serve (.createSchedule ⟨.ofNat 1, .ofSecond 0⟩ .minutely)).begin
    racedKey).begin racedKey).call 0 .blank).setClock (.ofSecond 90)).call 0 .blank |>.call 0
      ⟨.ofNat 2, .ofSecond 90⟩

/-- A third pass has recorded the launch, and the second one, with the clock set back, comes too late with
its status. -/
def raced : World :=
  (((halfway.setClock (.ofSecond 30)).begin racedKey).call 0 .blank).call 2 .blank

lemma halfway_reachable : Reachable halfway := by
  have hcreated := reachable_created (.ofSecond 0) ⟨.ofNat 1, .ofSecond 0⟩ .minutely
  have hstarted := (hcreated.begin racedKey).begin racedKey
  have hlater := (hstarted.tail (.call 0 .blank)).tail (.clock (.ofSecond 90))
  exact (hlater.tail (.call 0 .blank)).tail (.call 0 ⟨.ofNat 2, .ofSecond 90⟩)

lemma raced_reachable : Reachable raced := by
  have hthird := (halfway_reachable.tail (.clock (.ofSecond 30))).begin racedKey
  exact (hthird.tail (.call 0 .blank)).tail (.call 2 .blank)

/-- In the race two of three statuses are written, and the last launch stays where it is. -/
theorem last_never_decreases_raced :
    Reachable raced ∧ raced.written.length = 2 ∧ raced.site.store.calls.statusUpdates = 3 ∧
      (raced.stores.Pairwise fun newer older => ∀ x y, .schedule x ∈ older.objects →
        .schedule y ∈ newer.objects → x.metadata.uid = y.metadata.uid →
          NoLater x.status.lastScheduled y.status.lastScheduled) ∧
      ∀ e ∈ raced.written, e.1.Covers e.2 := by
  have hwritten : raced.written.length = 2 := by decide +kernel
  have hcalls : raced.site.store.calls.statusUpdates = 3 := by decide +kernel
  exact ⟨raced_reachable, hwritten, hcalls, last_never_decreases raced_reachable⟩

end World

end Timetable
