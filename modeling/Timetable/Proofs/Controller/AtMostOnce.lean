import Mathlib.Data.List.Nodup
import Timetable.Proofs.Controller.Interleaving
import Timetable.Proofs.Controller.Ledger
import Timetable.Proofs.Replica.Reflection

/-!
# No fire is launched twice

Passes over a store read one replica of it, which a reflector keeps. Passes for one key do not overlap, and
only passes create and delete work items and write the status of schedules. Then no schedule launches two
work items for one fire, however old the replica is and whatever became of the first one.
-/

namespace Timetable

/-! ## What a call does -/

/-- A call of a pass changes no launch, or stores a new work item, or deletes a child that the pass has
seen. -/
inductive CallEffect (stamp : Stamp) (site : Site) (past : List Store) (p : Running) : Prop
  | quiet : p.rest.launched? stamp site = none →
      site.store.KeepsSchedules (p.rest.step stamp site).2.store →
      site.store.KeepsItems (p.rest.step stamp site).2.store → CallEffect stamp site past p
  | create (w : WorkItem) (x : Schedule) (fire : Instant) :
      p.rest.launched? stamp site = some (w, site.store.newWorkItem stamp w) →
      p.view.Settled (site.store :: past) x → WorkItem.ofTemplate x fire = .ok w →
      x.status.lastScheduled.getD x.metadata.created < fire → fire.nano = 0 →
      site.store.objects.workItems[w.metadata.key]? = none →
      (p.rest.step stamp site).2.store.objects =
        site.store.objects.put (.workItem (site.store.newWorkItem stamp w)) →
      (p.rest.step stamp site).2.store.version = site.store.version + 1 → CallEffect stamp site past p
  | delete (c : WorkItem) (x : Schedule) : p.rest.launched? stamp site = none →
      c ∈ p.view.children → p.view.Settled (site.store :: past) x →
      (p.rest.step stamp site).2.store.objects =
        site.store.objects.erase .workItem c.metadata.key → CallEffect stamp site past p

section
variable {stores past : List Store} {s : Store} {site : Site} {stamp : Stamp} {p : Running}

lemma CallEffect.of_sameData (hnone : p.rest.launched? stamp site = none)
    (h : Store.SameData (p.rest.step stamp site).2.store site.store) : CallEffect stamp site past p :=
  .quiet hnone h.keepsSchedules h.keepsItems

lemma callEffect_of_writesFirst (hc : Chronicle (site.store :: past)) (hp : p.Sound (site.store :: past))
    (hfirst : p.rest.WritesFirst p.view.settled fun y c => c.Every (Pass.Asks p.view y)) :
    CallEffect stamp site past p := by
  obtain ⟨hsame, -⟩ | ⟨hcurrent, -, hdata, -⟩ := hfirst.step hc hp.schedule stamp
  · exact .of_sameData hfirst.launched?_eq hsame
  · obtain ⟨hks, hki⟩ := keeps_of_edit (y := site.store.withStatusOf p.view.settled p.view.schedule) hc
      ⟨_, Listing.mem_schedule.1 hcurrent⟩ rfl rfl hdata.objects
    exact .quiet hfirst.launched?_eq hks hki

lemma callEffect_of_every (hc : Chronicle (site.store :: past))
    (hevery : p.rest.Every fun r => ∃ y, p.view.Settled (site.store :: past) y ∧ Pass.Asks p.view y r) :
    CallEffect stamp site past p := by
  obtain ⟨key, view, rest⟩ := p
  cases rest with
  | writeScheduleStatus x next =>
    obtain ⟨y, -, hasks⟩ := hevery.1
    exact hasks.elim
  | writeItemStatus w next =>
    obtain ⟨y, -, hasks⟩ := hevery.1
    exact hasks.elim
  | createItem w next =>
    obtain ⟨x, hx, fire, htemplate, hlater, hwhole⟩ := hevery.1 stamp
    obtain ⟨e, t, he, hsame⟩ | ⟨hfree, t, hok, hdata⟩ :=
      Store.createWorkItem_cases site.store stamp w
    · refine .of_sameData ?_ (by simpa only [Client.step, he] using hsame)
      simp [Client.launched?, he, Except.toOption]
    · refine .create w x fire ?_ hx htemplate hlater hwhole hfree ?_ ?_
      · simp [Client.launched?, hok, Except.toOption]
      · simp only [Client.step, hok]
        exact hdata.objects
      · simp only [Client.step, hok]
        exact hdata.version
  | deleteItem key next =>
    obtain ⟨x, hx, c, hmem, hkey⟩ := hevery.1
    obtain ⟨e, t, he, hsame⟩ | ⟨w, hget, t, hok, hdata⟩ := Store.deleteWorkItem_cases site.store key
    · exact .of_sameData rfl (by simpa only [Client.step, he] using hsame)
    · have hwkey : w.metadata.key = key := by
        have hget' : site.store.objects.get? .workItem key = some (.workItem w) := by
          rw [Listing.get?_workItem, hget]
          rfl
        exact hc.keyed List.mem_cons_self _ _ _ hget'
      refine .delete c x rfl hmem hx ?_
      simp only [Client.step, hok]
      rw [hdata.objects, hkey, ← hwkey]
      rfl
  | _ => exact .of_sameData rfl (Store.SameData.refl _)

theorem callEffect (hc : Chronicle (site.store :: past)) (hp : p.Sound (site.store :: past)) :
    CallEffect stamp site past p := by
  obtain hfirst | hevery := hp.program
  · exact callEffect_of_writesFirst hc hp hfirst
  · exact callEffect_of_every hc hevery

end

/-! ## What a pass relies on -/

/-- The status that a view implies records a launch no earlier than a fire. -/
def View.Records (view : View) (fire : Instant) : Prop :=
  ∃ last, view.settled.status.lastScheduled = some last ∧ fire ≤ last

/-- A launch is out of a pass's way: the pass will not ask for it, or it will be refused, since the work item
is there and the pass will not delete it. -/
def View.Avoids (view : View) (s : Store) (w : WorkItem) (fire : Instant) : Prop :=
  view.Records fire ∨ (∃ v, .workItem v ∈ s.objects ∧ v.metadata.key = w.metadata.key) ∧
    ∀ c ∈ view.children, c.metadata.key ≠ w.metadata.key

/-- What a pass under way relies on: its children are its schedule's and were seen before, and every launch
of its schedule is out of its way. -/
structure Running.Ready (s : Store) (seen : Nat) (launched : List (WorkItem × WorkItem)) (p : Running) :
    Prop where
  key : p.view.schedule.metadata.key = p.key
  controlled : ∀ c ∈ p.view.children, c.metadata.isControlledBy p.view.schedule.metadata = true
  seen : ∀ c ∈ p.view.children, c.metadata.version ≤ seen
  safe : ∀ e ∈ launched, ∀ owner fire, fire.InFourDigitYear →
    e.2.LaunchOf owner p.view.schedule.metadata.uid fire → p.view.Avoids s e.2 fire

section
variable {s t : Store} {past : List Store} {launched : List (WorkItem × WorkItem)} {view : View}
  {p : Running} {owner : Key} {uid : Uid} {fire : Instant} {seen later : Nat} {c : WorkItem} {x : Schedule}

lemma View.records_of_child (hmem : c ∈ view.children) (hlaunch : c.LaunchOf owner uid fire)
    (hy : fire.InFourDigitYear) : view.Records fire := by
  obtain ⟨last, hlast, -, -, hchildren⟩ :=
    Schedule.desiredStatus_lastScheduled view.schedule view.children
  exact ⟨last, hlast, hchildren c hmem fire (hlaunch.scheduledTime hy)⟩

lemma View.records_of_schedule {last : Instant} (hlast : view.schedule.status.lastScheduled = some last)
    (hle : fire ≤ last) : view.Records fire := by
  obtain ⟨last', hlast', hle'⟩ := view.settled_continues.last last hlast
  exact ⟨last', hlast', hle.trans hle'⟩

/-- A pass asks only for launches later than all those its view records. -/
lemma View.not_records (hx : view.Settled (s :: past) x)
    (hlater : x.status.lastScheduled.getD x.metadata.created < fire) : ¬view.Records fire := by
  rintro ⟨last, hlast, hle⟩
  rw [hx.2.2.2.2, hlast] at hlater
  exact absurd hle (not_le_of_gt hlater)

/-- What the view records is recorded in the store once the status is written. -/
lemma View.records_store (h : Ledger s past launched) (hx : view.Settled (s :: past) x)
    (hrecords : view.Records fire) : s.Records view.schedule.metadata.uid fire := by
  obtain ⟨last, hlast, hle⟩ := hrecords
  obtain ⟨hheld, -, huid, -, hstatus⟩ := hx
  obtain ⟨y, hy, hxy⟩ := h.kept x hheld
  rw [← hstatus] at hlast
  obtain ⟨last', hlast', hle'⟩ := hxy.last last hlast
  exact ⟨y, last', hy, hxy.uid.trans huid, hlast', hle.trans hle'⟩

lemma Running.Ready.mono (h : p.Ready s seen launched) (hle : seen ≤ later) :
    p.Ready s later launched :=
  ⟨h.key, h.controlled, fun c hc => (h.seen c hc).trans hle, h.safe⟩

lemma View.Avoids.keep (h : view.Avoids s c fire)
    (hk : ∀ v, .workItem v ∈ s.objects → ∃ w, .workItem w ∈ t.objects ∧ w.metadata.key = v.metadata.key) :
    view.Avoids t c fire := by
  obtain hrecords | ⟨⟨v, hv, hkey⟩, hchildren⟩ := h
  · exact Or.inl hrecords
  · obtain ⟨w, hw, hwv⟩ := hk v hv
    exact Or.inr ⟨⟨w, hw, hwv.trans hkey⟩, hchildren⟩

end

/-! ## Runs -/

/-- A world with the reflector whose replica all its passes read. -/
structure Deployment where
  world : World
  reflector : Reflector

namespace Deployment

def new (clock : Instant) : Deployment := ⟨.new clock, .new⟩

/-- What may happen next. No two passes under way have the same key. -/
inductive Step (d : Deployment) : Deployment → Prop
  | request {r : Request} : r.Outside d.world.stores → Step d { d with world := d.world.serve r }
  | clock (now : Instant) : Step d { d with world := d.world.setClock now }
  | reflect {m : Reflector} :
      d.reflector.Step d.world.site.store m → Step d { d with reflector := m }
  | start {key : Key} {view : View} (cap : Nat) :
      (∀ p ∈ d.world.passes, p.key ≠ key) → d.reflector.replica.view? key = some view →
      Step d { d with world := { d.world with
        passes := ⟨key, view, Pass.run cap key (some view)⟩ :: d.world.passes } }
  | call (i : Nat) (stamp : Stamp) : Step d { d with world := d.world.call i stamp }
  | leave (i : Nat) :
      Step d { d with world := { d.world with passes := d.world.passes.eraseIdx i } }

def Reachable (d : Deployment) : Prop :=
  ∃ clock, Relation.ReflTransGen Step (new clock) d

structure Sound (d : Deployment) : Prop where
  world : d.world.Sound
  faithful : d.reflector.Faithful d.world.stores
  ledger : Ledger d.world.site.store d.world.past d.world.launched
  bounded : ∀ e ∈ d.world.launched, e.2.metadata.version ≤ d.world.site.store.version
  /-- A launch that is gone from the store has been seen. -/
  remembered : ∀ e ∈ d.world.launched, ∀ owner uid fire, fire.InFourDigitYear →
    e.2.LaunchOf owner uid fire →
      (∃ w, .workItem w ∈ d.world.site.store.objects ∧ w.metadata.key = e.2.metadata.key) ∨
        e.2.metadata.version ≤ d.reflector.replica.lastSeen
  passes : ∀ p ∈ d.world.passes,
    p.Ready d.world.site.store d.reflector.replica.lastSeen d.world.launched
  apart : (d.world.passes.map (·.key)).Nodup

variable {d d' : Deployment}

lemma sound_new (clock : Instant) : (new clock).Sound := by
  have hnone : ∀ o : Object, o ∉ Store.empty.objects := by
    intro o ho
    rw [Listing.mem_def] at ho
    simp [Store.empty] at ho
  have hheld : ∀ x, ¬Held [.empty] x := by
    rintro x ⟨t, ht, hx⟩
    rw [List.mem_singleton.1 ht] at hx
    exact hnone _ hx
  constructor
  · exact World.sound_new clock
  · exact Reflector.faithful_new
  · constructor
    · exact fun x hx => absurd hx (hheld x)
    · exact fun x hx => absurd hx (hheld x)
    · intro t ht w hw
      rw [List.mem_singleton.1 ht] at hw
      exact absurd hw (hnone _)
    · simp [new, World.new]
    · simp [new, World.new]
    · simp [new, World.new]
  · simp [new, World.new]
  · simp [new, World.new]
  · simp [new, World.new]
  · simp [new, World.new]

/-! ## Turns of the store -/

/-- A world after one turn of the store: its passes have the keys and views of passes before. -/
structure Follows (w w' : World) : Prop where
  sound : w'.Sound
  past : w'.past = w.stores
  views : ∀ p ∈ w'.passes, ∃ q ∈ w.passes, p.key = q.key ∧ p.view = q.view
  apart : (w'.passes.map (·.key)).Nodup

section
variable {p q : Running} {x : Schedule} {fire : Instant} {a b c : WorkItem} {w : World}

lemma Follows.stores (h : Follows d.world w) : w.stores = w.site.store :: d.world.stores :=
  congrArg (w.site.store :: ·) h.past

lemma Follows.lineage (h : Follows d.world w) : Lineage (w.site.store :: d.world.stores) :=
  h.stores ▸ h.sound.lineage

lemma Follows.version_le (h : Follows d.world w) : d.world.site.store.version ≤ w.site.store.version := by
  have hc := h.sound.chronicle
  rw [h.stores] at hc
  exact hc.version_le_head (List.mem_cons_of_mem _ List.mem_cons_self)

lemma Sound.turn (h : d.Sound) (hw : Follows d.world w)
    (hledger : Ledger w.site.store d.world.stores w.launched)
    (hbounded : ∀ e ∈ w.launched, e.2.metadata.version ≤ w.site.store.version)
    (hremembered : ∀ e ∈ w.launched, ∀ owner uid fire, fire.InFourDigitYear →
      e.2.LaunchOf owner uid fire →
        (∃ v, .workItem v ∈ w.site.store.objects ∧ v.metadata.key = e.2.metadata.key) ∨
          e.2.metadata.version ≤ d.reflector.replica.lastSeen)
    (hsafe : ∀ q ∈ d.world.passes, ∀ e ∈ w.launched, ∀ owner fire, fire.InFourDigitYear →
      e.2.LaunchOf owner q.view.schedule.metadata.uid fire → q.view.Avoids w.site.store e.2 fire) :
    Sound ⟨w, d.reflector⟩ := by
  refine ⟨hw.sound, ?_, hw.past ▸ hledger, hbounded, hremembered, ?_, hw.apart⟩
  · rw [hw.stores]
    exact h.faithful.append [_]
  · intro p hp
    obtain ⟨q, hq, hkey, hview⟩ := hw.views p hp
    have hready := h.passes q hq
    constructor
    · rw [hview, hkey]
      exact hready.key
    · rw [hview]
      exact hready.controlled
    · rw [hview]
      exact hready.seen
    · rw [hview]
      exact hsafe q hq

lemma Sound.quiet (h : d.Sound) (hw : Follows d.world w) (hlaunched : w.launched = d.world.launched)
    (hks : d.world.site.store.KeepsSchedules w.site.store)
    (hki : d.world.site.store.KeepsItems w.site.store) : Sound ⟨w, d.reflector⟩ := by
  apply h.turn hw
  · rw [hlaunched]
    exact h.ledger.quiet hw.lineage hks hki h.bounded
  · rw [hlaunched]
    exact fun e he => (h.bounded e he).trans hw.version_le
  · rw [hlaunched]
    intro e he owner uid fire hy hlaunch
    obtain ⟨v, hv, hkey⟩ | hseen := h.remembered e he owner uid fire hy hlaunch
    · obtain ⟨v', hv', hkey'⟩ := hki.kept v hv
      exact Or.inl ⟨v', hv', hkey'.trans hkey⟩
    · exact Or.inr hseen
  · rw [hlaunched]
    intro q hq e he owner fire hy hlaunch
    exact ((h.passes q hq).safe e he owner fire hy hlaunch).keep hki.kept

/-! ## Launches -/

/-- A pass creates a work item only if its schedule was not launched for the fire before. -/
lemma Sound.first (h : d.Sound) (hp : p ∈ d.world.passes) (hx : p.view.Settled d.world.stores x)
    (hlater : x.status.lastScheduled.getD x.metadata.created < fire)
    (hlaunch : b.LaunchOf x.metadata.key x.metadata.uid fire)
    (hfree : d.world.site.store.objects.workItems[b.metadata.key]? = none)
    (hy : fire.InFourDigitYear) :
    ∀ f ∈ d.world.launched, ∀ owner, ¬f.2.LaunchOf owner x.metadata.uid fire := by
  intro f hf owner hother
  have howner := h.ledger.owner_eq h.world.lineage hf hother hx.1 rfl
  have hother' : f.2.LaunchOf owner p.view.schedule.metadata.uid fire := hx.2.2.1 ▸ hother
  obtain hrecords | ⟨⟨v, hv, hvkey⟩, -⟩ := (h.passes p hp).safe f hf owner fire hy hother'
  · exact View.not_records hx hlater hrecords
  · have hkey : v.metadata.key = b.metadata.key := by
      rw [hvkey, hother.key, hlaunch.key, howner]
    rw [Listing.mem_workItem, hkey, hfree] at hv
    simp at hv

/-- No pass has seen a child under the key of a launch that was not made before. -/
lemma Sound.unseen (h : d.Sound) (hq : q ∈ d.world.passes) (hx : Held d.world.stores x)
    (hlaunch : b.LaunchOf x.metadata.key x.metadata.uid fire)
    (hfirst : ∀ f ∈ d.world.launched, ∀ owner, ¬f.2.LaunchOf owner x.metadata.uid fire) :
    ∀ c ∈ q.view.children, c.metadata.key ≠ b.metadata.key := by
  intro c hc hkey
  obtain ⟨t, ht, hchild⟩ := (h.world.passes q hq).children c hc
  obtain ⟨-, f, hf, hother, -⟩ :=
    h.ledger.launchOf_of_childKey hx hlaunch.whole ht hchild (hkey.trans hlaunch.key)
  exact hfirst f hf _ hother

lemma Sound.create (h : d.Sound) (hw : Follows d.world w) (hp : p ∈ d.world.passes)
    (hlaunched : w.launched = (a, b) :: d.world.launched) (hx : p.view.Settled d.world.stores x)
    (hlater : x.status.lastScheduled.getD x.metadata.created < fire) (hcopy : a.Copies b)
    (hlaunch : b.LaunchOf x.metadata.key x.metadata.uid fire)
    (hfree : d.world.site.store.objects.workItems[b.metadata.key]? = none)
    (hput : w.site.store.objects = d.world.site.store.objects.put (.workItem b))
    (hversion : b.metadata.version = d.world.site.store.version + 1)
    (hnext : w.site.store.version = d.world.site.store.version + 1) : Sound ⟨w, d.reflector⟩ := by
  have hfirst := h.first hp hx hlater hlaunch hfree
  have hthere := Store.mem_of_put_workItem hput
  have hkept := Store.kept_of_put_workItem hput hfree
  apply h.turn hw
  · rw [hlaunched]
    have hentered : Ledger d.world.site.store d.world.past ((a, b) :: d.world.launched) :=
      h.ledger.enter h.world.chronicle (by dsimp only; omega) hcopy hx.1 hlaunch hfirst
    exact hentered.create hw.lineage hput hfree h.bounded
  · rw [hlaunched]
    intro e he
    obtain rfl | he := List.mem_cons.1 he
    · dsimp only
      omega
    · exact (h.bounded e he).trans hw.version_le
  · rw [hlaunched]
    intro e he owner uid fire' hy hother
    obtain rfl | he := List.mem_cons.1 he
    · exact Or.inl ⟨b, hthere, rfl⟩
    · obtain ⟨v, hv, hkey⟩ | hseen := h.remembered e he owner uid fire' hy hother
      · exact Or.inl ⟨v, hkept v hv, hkey⟩
      · exact Or.inr hseen
  · rw [hlaunched]
    intro q hq e he owner fire' hy hother
    obtain rfl | he := List.mem_cons.1 he
    · obtain ⟨-, -, rfl⟩ := hlaunch.unique hother
      exact Or.inr ⟨⟨b, hthere, rfl⟩, h.unseen hq hx.1 hlaunch (hfirst hy)⟩
    · exact ((h.passes q hq).safe e he owner fire' hy hother).keep fun v hv => ⟨v, hkept v hv, rfl⟩

/-! ## Deletions -/

/-- The launch under the key of a child that a pass has seen is recorded and was seen. -/
lemma Sound.recorded (h : d.Sound) (hp : p ∈ d.world.passes) (hc : c ∈ p.view.children)
    {e : WorkItem × WorkItem} (he : e ∈ d.world.launched) {owner : Key} {uid : Uid}
    (hy : fire.InFourDigitYear) (hlaunch : e.2.LaunchOf owner uid fire)
    (hkey : e.2.metadata.key = c.metadata.key) :
    p.view.schedule.metadata.uid = uid ∧ p.view.Records fire ∧
      e.2.metadata.version ≤ d.reflector.replica.lastSeen := by
  have hready := h.passes p hp
  obtain ⟨t, ht, hthere⟩ := (h.world.passes p hp).children c hc
  obtain ⟨hchild, f, hf, hother, hle⟩ := h.ledger.launchOf_of_key he hlaunch ht hthere hkey.symm
  refine ⟨((hchild.isControlledBy _).1 (hready.controlled c hc)).1.symm,
    View.records_of_child hc hchild hy, ?_⟩
  rw [h.ledger.eq_of_launchOf he hf hy hlaunch hother]
  exact hle.trans (hready.seen c hc)

lemma Sound.only (h : d.Sound) (hp : p ∈ d.world.passes) (hq : q ∈ d.world.passes)
    (huid : q.view.schedule.metadata.uid = p.view.schedule.metadata.uid) : q = p := by
  have hkey := h.world.lineage.key_eq (h.world.passes q hq).schedule (h.world.passes p hp).schedule huid
  rw [(h.passes q hq).key, (h.passes p hp).key] at hkey
  exact List.inj_on_of_nodup_map h.apart hq hp hkey

lemma Sound.delete (h : d.Sound) (hw : Follows d.world w) (hp : p ∈ d.world.passes)
    (hlaunched : w.launched = d.world.launched) (hc : c ∈ p.view.children) (hx : p.view.Settled d.world.stores x)
    (herase : w.site.store.objects = d.world.site.store.objects.erase .workItem c.metadata.key) :
    Sound ⟨w, d.reflector⟩ := by
  have hkept : ∀ v, .workItem v ∈ d.world.site.store.objects → v.metadata.key ≠ c.metadata.key →
      .workItem v ∈ w.site.store.objects := by
    intro v hv hne
    rw [Listing.mem_workItem] at hv ⊢
    rw [herase, Store.workItems_erase, if_neg hne.symm]
    exact hv
  apply h.turn hw
  · rw [hlaunched]
    refine h.ledger.delete hw.lineage herase ?_ h.bounded
    intro e he owner uid fire hy hlaunch hkey
    obtain ⟨huid, hrecords, -⟩ := h.recorded hp hc he hy hlaunch hkey
    exact huid ▸ View.records_store h.ledger hx hrecords
  · rw [hlaunched]
    exact fun e he => (h.bounded e he).trans hw.version_le
  · rw [hlaunched]
    intro e he owner uid fire hy hlaunch
    by_cases hkey : e.2.metadata.key = c.metadata.key
    · exact Or.inr (h.recorded hp hc he hy hlaunch hkey).2.2
    · obtain ⟨v, hv, hve⟩ | hseen := h.remembered e he owner uid fire hy hlaunch
      · exact Or.inl ⟨v, hkept v hv (hve ▸ hkey), hve⟩
      · exact Or.inr hseen
  · rw [hlaunched]
    intro q hq e he owner fire hy hlaunch
    obtain hrecords | ⟨⟨v, hv, hve⟩, hchildren⟩ := (h.passes q hq).safe e he owner fire hy hlaunch
    · exact Or.inl hrecords
    · by_cases hkey : e.2.metadata.key = c.metadata.key
      · -- only the pass itself could be misled by the deletion, and it has recorded the launch
        obtain ⟨huid, hrecords, -⟩ := h.recorded hp hc he hy hlaunch hkey
        rw [h.only hp hq huid.symm]
        exact Or.inl hrecords
      · exact Or.inr ⟨⟨v, hkept v hv (hve ▸ hkey), hve⟩, hchildren⟩

end

/-! ## Steps -/

lemma follows_callOf (h : d.Sound) {i : Nat} {p : Running} (hp : d.world.passes[i]? = some p)
    (stamp : Stamp) : Follows d.world (d.world.callOf i p stamp) := by
  have hmem := List.mem_of_getElem? hp
  constructor
  · exact h.world.callOf hmem stamp
  · rfl
  · intro q hq
    obtain hq | rfl := List.mem_or_eq_of_mem_set hq
    · exact ⟨q, hq, rfl, rfl⟩
    · exact ⟨p, hmem, rfl, rfl⟩
  · have hkeys : (d.world.callOf i p stamp).passes.map (·.key) = d.world.passes.map (·.key) := by
      have hkey : (d.world.passes.map (·.key))[i]? = some p.key := by simp [hp]
      obtain ⟨hi, hget⟩ := List.getElem?_eq_some_iff.1 hkey
      unfold World.callOf
      rw [List.map_set, ← hget, List.set_getElem_self]
    rw [hkeys]
    exact h.apart

lemma Sound.callOf (h : d.Sound) {i : Nat} {p : Running} (hp : d.world.passes[i]? = some p)
    (stamp : Stamp) : Sound { d with world := d.world.callOf i p stamp } := by
  have hmem := List.mem_of_getElem? hp
  have hw := follows_callOf h hp stamp
  have hlaunched : (d.world.callOf i p stamp).launched =
      (p.rest.launched? stamp d.world.site).toList ++ d.world.launched := rfl
  obtain ⟨hnone, hks, hki⟩ | ⟨a, x, fire, hsome, hx, htemplate, hlater, hwhole, hfree, hput, hversion⟩ |
      ⟨c, x, hnone, hc, hx, herase⟩ := callEffect h.world.chronicle (h.world.passes p hmem)
  · rw [hnone] at hlaunched
    exact h.quiet hw hlaunched hks hki
  · rw [hsome] at hlaunched
    exact h.create hw hmem hlaunched hx hlater ⟨rfl, rfl, rfl⟩
      ((WorkItem.launchOf_of_template htemplate hwhole).copies ⟨rfl, rfl, rfl⟩) hfree hput rfl hversion
  · rw [hnone] at hlaunched
    exact h.delete hw hmem hlaunched hc hx herase

section
variable {t : Store} {x : Schedule} {e : WorkItem × WorkItem} {fire : Instant}

/-- A view of a store records the launches that were made before: their work items are among the children,
or the schedule has recorded them. -/
lemma Sound.records_of_seen (h : d.Sound) (ht : t ∈ d.world.stores)
    (hobjects : t.objects = d.reflector.replica.objects) (hx : .schedule x ∈ t.objects)
    (he : e ∈ d.world.launched) (hy : fire.InFourDigitYear)
    (hlaunch : e.2.LaunchOf x.metadata.key x.metadata.uid fire) (hseen : e.2.metadata.version ≤ t.version) :
    (d.reflector.replica.viewOf x).Records fire := by
  obtain ⟨w, hw, hkey⟩ | ⟨y, last, hyt, huid, hlast, hle⟩ :=
    h.ledger.covered e he _ _ fire hy hlaunch t ht hseen
  · obtain ⟨hchild, -⟩ := h.ledger.launchOf_of_key he hlaunch ht hw hkey
    have hindexed : w ∈ d.reflector.replica.childrenOf x.metadata.key := by
      rw [h.faithful.indexed.mem_childrenOf, ← hobjects]
      exact ⟨w.metadata.key, Listing.mem_workItem.1 hw, hchild.ownerKey⟩
    have hcontrolled := (hchild.isControlledBy x.metadata).2 ⟨rfl, rfl⟩
    exact View.records_of_child (List.mem_filter.2 ⟨hindexed, hcontrolled⟩) hchild hy
  · have hyx := h.world.lineage.self t ht y x hyt hx huid
    obtain ⟨last', hlast', hle'⟩ := hyx.last last hlast
    exact View.records_of_schedule hlast' (hle.trans hle')

/-- The children in a store were launched before it. -/
lemma Sound.ne_key_of_unseen (h : d.Sound) (ht : t ∈ d.world.stores) {c : WorkItem}
    (hc : .workItem c ∈ t.objects) (he : e ∈ d.world.launched) (hy : fire.InFourDigitYear)
    (hlaunch : e.2.LaunchOf x.metadata.key x.metadata.uid fire)
    (hunseen : ¬e.2.metadata.version ≤ t.version) : c.metadata.key ≠ e.2.metadata.key := by
  intro hkey
  obtain ⟨-, f, hf, hother, hle⟩ := h.ledger.launchOf_of_key he hlaunch ht hc hkey
  rw [← h.ledger.eq_of_launchOf he hf hy hlaunch hother] at hle
  exact hunseen (hle.trans (h.world.chronicle.mem_version_le ht hc))

end

lemma Sound.start (h : d.Sound) {key : Key} {view : View}
    (hview : d.reflector.replica.view? key = some view) (cap : Nat) :
    Running.Ready d.world.site.store d.reflector.replica.lastSeen d.world.launched
      ⟨key, view, Pass.run cap key (some view)⟩ := by
  obtain ⟨t, ht, hversion, hobjects⟩ := h.faithful.past
  rw [Replica.view?_eq] at hview
  obtain ⟨x, hx, rfl⟩ := Option.map_eq_some_iff.1 hview
  have hschedule := World.held_of_lookup h.world.chronicle ht hobjects.symm hx
  have hchildren := World.held_of_viewOf (x := x) h.world.chronicle ht hobjects.symm
  have hkey : x.metadata.key = key := by
    have hget : t.objects.get? .schedule key = some (.schedule x) := by
      rw [Listing.get?_schedule, hobjects, hx]
      rfl
    exact h.world.chronicle.keyed ht _ _ _ hget
  constructor
  · exact hkey
  · exact fun c hc => (List.mem_filter.1 hc).2
  · intro c hc
    have hle : c.metadata.version ≤ t.version := h.world.chronicle.mem_version_le ht (hchildren c hc)
    exact hversion ▸ hle
  · intro e he owner fire hy hlaunch
    have howner : owner = x.metadata.key :=
      h.ledger.owner_eq h.world.lineage he hlaunch ⟨t, ht, hschedule⟩ rfl
    subst howner
    by_cases hseen : e.2.metadata.version ≤ t.version
    · exact Or.inl (h.records_of_seen ht hobjects hschedule he hy hlaunch hseen)
    · right
      constructor
      · obtain hthere | hold := h.remembered e he _ _ fire hy hlaunch
        · exact hthere
        · exact absurd (hversion ▸ hold) hseen
      · exact fun c hc => h.ne_key_of_unseen ht (hchildren c hc) he hy hlaunch hseen

theorem Sound.step (h : d.Sound) (hstep : Step d d') : d'.Sound := by
  cases hstep with
  | @request r hr =>
    have hw : Follows d.world (d.world.serve r) := by
      constructor
      · exact h.world.step (.request hr.permitted)
      · simp [World.serve, hr.stages]
      · exact fun p hp => ⟨p, hp, rfl, rfl⟩
      · exact h.apart
    obtain ⟨hks, hki⟩ := hr.keeps h.world.chronicle
    exact h.quiet hw rfl hks hki
  | clock now =>
    exact ⟨h.world.step (.clock now), h.faithful, h.ledger, h.bounded, h.remembered, h.passes, h.apart⟩
  | @reflect m hm =>
    have hle := hm.lastSeen_le
    refine ⟨h.world, h.faithful.step h.world.chronicle hm, h.ledger, h.bounded, ?_,
      fun p hp => (h.passes p hp).mono hle, h.apart⟩
    intro e he owner uid fire hy hlaunch
    exact (h.remembered e he owner uid fire hy hlaunch).imp_right fun hold => hold.trans hle
  | @start key view cap hnew hview =>
    obtain ⟨t, ht, -, hobjects⟩ := h.faithful.past
    have hshows : d.reflector.replica.Shows d.world.stores := ⟨t, ht, hobjects.symm⟩
    refine ⟨?_, h.faithful, h.ledger, h.bounded, h.remembered, ?_, ?_⟩
    · rw [Replica.view?_eq] at hview
      obtain ⟨x, hx, rfl⟩ := Option.map_eq_some_iff.1 hview
      exact h.world.step (.start cap hshows hx hshows)
    · intro p hp
      obtain rfl | hp := List.mem_cons.1 hp
      · exact h.start hview cap
      · exact h.passes p hp
    · dsimp only
      rw [List.map_cons, List.nodup_cons]
      refine ⟨?_, h.apart⟩
      intro hmem
      obtain ⟨p, hp, hkey⟩ := List.mem_map.1 hmem
      exact hnew p hp hkey
  | call i stamp =>
    unfold World.call
    split
    · rename_i p hp
      exact h.callOf hp stamp
    · exact h
  | leave i =>
    have hsub := List.eraseIdx_sublist d.world.passes i
    exact ⟨h.world.step (.leave i), h.faithful, h.ledger, h.bounded, h.remembered,
      fun q hq => h.passes q (hsub.subset hq), h.apart.sublist (hsub.map _)⟩

theorem sound_of_reachable (h : Reachable d) : d.Sound := by
  obtain ⟨clock, hsteps⟩ := h
  induction hsteps with
  | refl => exact sound_new clock
  | tail _ hstep ih => exact ih.step hstep

lemma Reachable.chronicle (h : Reachable d) : Chronicle (d.world.site.store :: d.world.past) :=
  (sound_of_reachable h).world.chronicle

/-- A work item asked for is the one of the schedule with a UID for a fire. -/
def Serves (uid : Uid) (fire : Instant) (w : WorkItem) : Prop :=
  ∃ x : Schedule, x.metadata.uid = uid ∧ WorkItem.ofTemplate x fire = .ok w

lemma launchOf_of_serves {s : Store} {past : List Store} {launched : List (WorkItem × WorkItem)}
    (h : Ledger s past launched) {e : WorkItem × WorkItem} (he : e ∈ launched) {uid : Uid}
    {fire : Instant} (hserves : Serves uid fire e.1) :
    ∃ owner, e.2.LaunchOf owner uid fire.truncate := by
  obtain ⟨x, huid, htemplate⟩ := hserves
  obtain ⟨hkey, howners, -⟩ := WorkItem.ofTemplate_spec htemplate
  obtain ⟨hcopy, y, fire', -, hmade⟩ := h.made e he
  have hreference := hmade.owners.symm.trans (hcopy.owners.trans howners)
  simp only [Schedule.controllerReference, List.cons.injEq, OwnerReference.mk.injEq, true_and,
    and_true] at hreference
  have hchild := hmade.key.symm.trans (hcopy.key.trans hkey)
  have hname : y.metadata.key.name = x.metadata.name := hreference.1
  rw [hname] at hchild
  have hsecond := WorkItem.second_of_childName (Key.mk.inj hchild).2
  have hfire : fire' = fire.truncate := Instant.ext hsecond hmade.whole
  rw [hfire, hreference.2, huid] at hmade
  exact ⟨_, hmade⟩

/-- At most one launch of a schedule for a fire ever succeeds. -/
theorem at_most_one_launch (h : Reachable d) (uid : Uid) (fire : Instant)
    (hy : fire.InFourDigitYear) :
    d.world.launched.Pairwise fun e f => ¬(Serves uid fire e.1 ∧ Serves uid fire f.1) := by
  have hledger := (sound_of_reachable h).ledger
  refine hledger.once.imp_of_mem ?_
  rintro e f he hf honce ⟨hserves, hserves'⟩
  obtain ⟨owner, hlaunch⟩ := launchOf_of_serves hledger he hserves
  obtain ⟨other, hother⟩ := launchOf_of_serves hledger hf hserves'
  exact honce owner other uid fire.truncate hy hlaunch hother

/-! ## A launch tried again -/

lemma Reachable.tail (h : Reachable d) (hstep : Step d d') : Reachable d' := by
  obtain ⟨clock, hsteps⟩ := h
  exact ⟨clock, hsteps.tail hstep⟩

def advance (d : Deployment) : Deployment :=
  { d with reflector := d.reflector.advance d.world.site.store }

lemma Reachable.advance (h : Reachable d) : Reachable d.advance :=
  h.tail (.reflect .advance)

def begin (d : Deployment) (key : Key) : Deployment :=
  match d.reflector.replica.view? key with
  | some view =>
    if ∀ p ∈ d.world.passes, p.key ≠ key then
      { d with world := { d.world with
          passes := ⟨key, view, Pass.run 100 key (some view)⟩ :: d.world.passes } }
    else d
  | none => d

lemma Reachable.begin (h : Reachable d) (key : Key) : Reachable (d.begin key) := by
  unfold Deployment.begin
  split
  · rename_i view hview
    split_ifs with hnew
    · exact h.tail (.start 100 hnew hview)
    · exact h
  · exact h

def call (d : Deployment) (i : Nat) (stamp : Stamp) : Deployment :=
  { d with world := d.world.call i stamp }

lemma Reachable.call (h : Reachable d) (i : Nat) (stamp : Stamp) : Reachable (d.call i stamp) :=
  h.tail (.call i stamp)

/-- The reflector follows a new schedule, whose first pass is about to start. -/
def waiting : Deployment :=
  let d := (new (.ofSecond 0)).world.serve (.createSchedule ⟨.ofNat 1, .ofSecond 0⟩ .minutely)
  (Deployment.mk (d.setClock (.ofSecond 90)) .new).advance.advance.advance.begin World.racedKey

/-- The pass has launched a work item and was given up. The replica shows the status that it wrote, but
not the work item. -/
def abandoned : Deployment :=
  let d := (((waiting.call 0 .blank).advance).call 0 .blank).call 0 ⟨.ofNat 2, .ofSecond 90⟩
  { d with world := { d.world with passes := d.world.passes.eraseIdx 0 } }

def retried : Deployment :=
  ((abandoned.begin World.racedKey).call 0 .blank).call 0 ⟨.ofNat 3, .ofSecond 90⟩

lemma waiting_reachable : Reachable waiting := by
  have hnew : Reachable (new (.ofSecond 0)) := ⟨_, Relation.ReflTransGen.refl⟩
  have hunused : Request.Outside (new (.ofSecond 0)).world.stores
      (.createSchedule ⟨.ofNat 1, .ofSecond 0⟩ .minutely) := by
    rintro x ⟨t, ht, hx⟩
    rw [List.mem_singleton.1 ht, Listing.mem_def] at hx
    simp [new, World.new, Store.empty] at hx
  have hcreated := (hnew.tail (.request hunused)).tail (.clock (.ofSecond 90))
  exact hcreated.advance.advance.advance.begin World.racedKey

lemma abandoned_reachable : Reachable abandoned := by
  have hlaunched :=
    (((waiting_reachable.call 0 .blank).advance).call 0 .blank).call 0 ⟨.ofNat 2, .ofSecond 90⟩
  exact hlaunched.tail (.leave 0)

lemma retried_reachable : Reachable retried :=
  ((abandoned_reachable.begin World.racedKey).call 0 .blank).call 0 ⟨.ofNat 3, .ofSecond 90⟩

/-- A pass that knows nothing of a launch asks for it again and does not succeed. -/
theorem at_most_one_launch_retried :
    Reachable retried ∧ (Instant.ofSecond 60).InFourDigitYear ∧
      retried.world.site.store.calls.creates = 2 ∧ retried.world.launched.length = 1 ∧
      retried.world.launched.Pairwise fun e f =>
        ¬(Serves (.ofNat 1) (.ofSecond 60) e.1 ∧ Serves (.ofNat 1) (.ofSecond 60) f.1) := by
  have hy : (Instant.ofSecond 60).InFourDigitYear := by
    unfold Instant.InFourDigitYear
    decide +kernel
  have hcreates : retried.world.site.store.calls.creates = 2 := by decide +kernel
  have hlaunched : retried.world.launched.length = 1 := by decide +kernel
  exact ⟨retried_reachable, hy, hcreates, hlaunched, at_most_one_launch retried_reachable _ _ hy⟩

end Deployment

end Timetable
