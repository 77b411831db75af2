import Timetable.Proofs.Controller.Executing
import Timetable.Proofs.Controller.Interleaving
import Timetable.Proofs.Controller.Pacing

/-!
# Runs that do not overlap

One pass at a time works for a schedule whose policy is `Forbid` or `Replace`, and it starts from what is stored.
Meanwhile the executor moves work items on, and other clients do as they like, except that they neither create
nor change the schedule's children. Then at most one of the children is active, at every moment.
-/

namespace Timetable

/-- A site with the stores before, the pass under way for one schedule, and the rounds of the executor. -/
structure Workshop where
  site : Site
  past : List Store
  pass : Option Running
  rounds : List (Client (Except StoreError Nat))

/-- A request of another client: it creates and changes no child of an owner, and leaves the policy in force. -/
structure Request.Spares (owner : Meta) (policy : Concurrency) (s : Store) (r : Request) : Prop where
  children : ∀ w, .workItem w ∈ (s.serve r).objects → w.metadata.isControlledBy owner = true →
    .workItem w ∈ s.objects
  governed : (s.serve r).Governed owner policy

namespace Workshop

def stores (c : Workshop) : List Store := c.site.store :: c.past

def serve (c : Workshop) (r : Request) : Workshop :=
  { c with
    site := { c.site with store := c.site.store.serve r }
    past := (c.site.store.stages r).tail ++ c.stores }

def setClock (c : Workshop) (now : Instant) : Workshop :=
  { c with site := { c.site with clock := now } }

def start (c : Workshop) (cap : Nat) (key : Key) (view : View) : Workshop :=
  { c with pass := some ⟨key, view, Pass.run cap key (some view)⟩ }

/-- The workshop after the next call of its pass. -/
def call (c : Workshop) (p : Running) (stamp : Stamp) : Workshop :=
  { c with
    site := (p.rest.step stamp c.site).2
    past := c.stores
    pass := some { p with rest := (p.rest.step stamp c.site).1 } }

def beginRound (c : Workshop) (runtime : Int) : Workshop :=
  { c with rounds := Executor.round runtime :: c.rounds }

/-- The workshop after the next call of the round at an index. -/
def advance (c : Workshop) (i : Nat) (round : Client (Except StoreError Nat)) (stamp : Stamp) : Workshop :=
  { c with
    site := (round.step stamp c.site).2
    past := c.stores
    rounds := c.rounds.set i (round.step stamp c.site).1 }

/-- What may happen next. A pass starts when no other one is under way, from a replica that is up to date; it
may be given up at any moment, and so may a round. -/
inductive Step (owner : Meta) (policy : Concurrency) (c : Workshop) : Workshop → Prop
  | request {r : Request} : r.Spares owner policy c.site.store → Step owner policy c (c.serve r)
  | clock (now : Instant) : Step owner policy c (c.setClock now)
  | start {m : Replica} {view : View} (cap : Nat) :
      c.pass = none → m.Current c.site.store → m.view? owner.key = some view →
      view.schedule.metadata.uid = owner.uid → Step owner policy c (c.start cap owner.key view)
  | call {p : Running} (stamp : Stamp) : c.pass = some p → Step owner policy c (c.call p stamp)
  | leave : Step owner policy c { c with pass := none }
  | beginRound (runtime : Int) : Step owner policy c (c.beginRound runtime)
  | advance {i : Nat} {round : Client (Except StoreError Nat)} (stamp : Stamp) :
      c.rounds[i]? = some round → Step owner policy c (c.advance i round stamp)
  | leaveRound (i : Nat) : Step owner policy c { c with rounds := c.rounds.eraseIdx i }

/-- Nothing is under way yet, the policy is in force, and the owner has no children. -/
structure Begins (owner : Meta) (policy : Concurrency) (c : Workshop) : Prop where
  served : Served c.stores
  pass : c.pass = none
  rounds : c.rounds = []
  governed : c.site.store.Governed owner policy
  childless : ∀ w, .workItem w ∈ c.site.store.objects → w.metadata.isControlledBy owner = false

end Workshop

/-! ## The pass under way -/

/-- A pass works for an owner under a policy, and what is left of it is paced by the active children. -/
structure Running.Careful (owner : Meta) (policy : Concurrency) (s : Store) (past : List Store)
    (p : Running) : Prop where
  schedule : Held (s :: past) p.view.schedule
  key : p.view.schedule.metadata.key = owner.key
  spec : p.view.schedule.spec.concurrency = policy
  program : ∃ left, s.activeKeys owner ⊆ left ∧
    (p.rest.WritesFirst p.view.settled (fun y c => c.PacedAfter policy owner.key left y) ∨
      p.rest.Paced policy owner.key left)

section
variable {owner : Meta} {policy : Concurrency} {s t : Store} {past newer : List Store} {p : Running}
  {view : View} {site : Site}

lemma Running.Careful.wanes (h : p.Careful owner policy s past) (hw : Store.Wanes owner s t)
    (hsub : s :: past ⊆ t :: newer) : p.Careful owner policy t newer := by
  obtain ⟨left, hleft, hprogram⟩ := h.program
  exact ⟨h.schedule.mono hsub, h.key, h.spec, left, hw.activeKeys_subset.trans hleft, hprogram⟩

/-- An up-to-date view shows all active children. -/
lemma View.Shows.activeKeys_subset (h : view.Shows s.objects owner.key)
    (huid : view.schedule.metadata.uid = owner.uid) (hkey : view.schedule.metadata.key = owner.key)
    (horderly : s.Orderly owner) : s.activeKeys owner ⊆ view.activeKeys := by
  have hspace : view.schedule.metadata.space = owner.space := congrArg Key.space hkey
  rintro key ⟨w, hw, rfl, hchild, hactive⟩
  have hcontrolled : w.metadata.isControlledBy view.schedule.metadata = true := by
    unfold Meta.isControlledBy at hchild ⊢
    rwa [huid, hspace]
  have hshown := (h.children w).2 ⟨Listing.mem_workItem.1 hw, horderly.owned w hw hchild, hcontrolled⟩
  exact ⟨w, Buckets.mem_active.2 ⟨hshown, hactive⟩, rfl⟩

lemma careful_run (hpolicy : policy ≠ .allow) (hc : Chronicle (s :: past)) (hgoverned : s.Governed owner policy)
    (horderly : s.Orderly owner) (hshows : view.Shows s.objects owner.key)
    (huid : view.schedule.metadata.uid = owner.uid) (cap : Nat) :
    Running.Careful owner policy s past ⟨owner.key, view, Pass.run cap owner.key (some view)⟩ := by
  have hs : s ∈ s :: past := List.mem_cons_self
  have hkey := (hc.keyed hs).schedule_key hshows.schedule
  have hheld : .schedule view.schedule ∈ s.objects := by
    rw [Listing.mem_schedule, hkey]
    exact hshows.schedule
  have hspec := hgoverned.specs _ hheld huid
  refine ⟨⟨s, hs, hheld⟩, hkey, hspec, view.activeKeys, ?_, ?_⟩
  · exact hshows.activeKeys_subset huid hkey horderly
  · have hsettle := Pass.settle_paced hpolicy cap owner.key owner.key view
    obtain hfirst | ⟨-, notices, hrun⟩ := Pass.run_cases cap owner.key view hsettle
    · exact Or.inl hfirst
    · right
      dsimp only
      rw [hrun]
      exact Pass.noteAll_paced (hsettle view.schedule hkey hspec)

/-- The status is written over the schedule that the pass saw, whose policy is in force. -/
lemma careful_of_writesFirst {left : Set Key} (h : p.Careful owner policy site.store past)
    (hc : Chronicle (site.store :: past)) (hleft : site.store.activeKeys owner ⊆ left)
    (hfirst : p.rest.WritesFirst p.view.settled fun y c => c.PacedAfter policy owner.key left y)
    (stamp : Stamp) :
    Store.Wanes owner site.store (p.rest.step stamp site).2.store ∧
      Running.Careful owner policy (p.rest.step stamp site).2.store (site.store :: past)
        { p with rest := (p.rest.step stamp site).1 } := by
  have hheld : ∀ t : Store, Held (t :: site.store :: past) p.view.schedule := fun t =>
    h.schedule.mono (List.subset_cons_self t _)
  obtain ⟨hsame, -, hrest⟩ | ⟨-, -, hdata, hafter⟩ := hfirst.step hc h.schedule stamp
  · refine ⟨hsame.wanes, hheld _, h.key, h.spec, left, hsame.wanes.activeKeys_subset.trans hleft, ?_⟩
    exact hrest.imp_right fun hnothing => (hnothing.mono fun r hr => hr.elim).paced
  · have hwanes : Store.Wanes owner site.store (p.rest.step stamp site).2.store :=
      Store.wanes_of_put_schedule hdata.objects
    refine ⟨hwanes, hheld _, h.key, h.spec, left, hwanes.activeKeys_subset.trans hleft, Or.inr ?_⟩
    exact hafter h.key h.spec

theorem Running.Careful.call (h : p.Careful owner policy site.store past)
    (hc : Chronicle (site.store :: past)) (hgoverned : site.store.Governed owner policy)
    (horderly : site.store.Orderly owner) (stamp : Stamp) :
    (p.rest.step stamp site).2.store.Orderly owner ∧
      Running.Careful owner policy (p.rest.step stamp site).2.store (site.store :: past)
        { p with rest := (p.rest.step stamp site).1 } := by
  obtain ⟨left, hleft, hfirst | hpaced⟩ := h.program
  · obtain ⟨hwanes, hcareful⟩ := careful_of_writesFirst h hc hleft hfirst stamp
    exact ⟨horderly.wanes hwanes, hcareful⟩
  · obtain ⟨hordered, left', hleft', hpaced'⟩ :=
      hpaced.step hleft (hc.keyed List.mem_cons_self) hgoverned horderly
    have hheld := h.schedule.mono (List.subset_cons_self (p.rest.step stamp site).2.store _)
    exact ⟨hordered, hheld, h.key, h.spec, left', hleft', Or.inr hpaced'⟩

end

/-! ## Steps -/

namespace Workshop
variable {owner : Meta} {policy : Concurrency} {c d : Workshop}

structure Sound (owner : Meta) (policy : Concurrency) (c : Workshop) : Prop where
  chronicle : Chronicle c.stores
  governed : c.site.store.Governed owner policy
  orderly : c.site.store.Orderly owner
  pass : ∀ p, c.pass = some p → p.Careful owner policy c.site.store c.past
  rounds : ∀ round ∈ c.rounds, Executor.Sound c.stores round

lemma Begins.sound (h : c.Begins owner policy) : c.Sound owner policy := by
  have hnone : ∀ w, .workItem w ∈ c.site.store.objects → w.metadata.isControlledBy owner ≠ true := by
    intro w hw hchild
    rw [h.childless w hw] at hchild
    exact Bool.noConfusion hchild
  constructor
  · exact h.served.chronicle
  · exact h.governed
  · constructor
    · exact fun w hw hchild => (hnone w hw hchild).elim
    · rintro key ⟨w, hw, -, hchild, -⟩
      exact (hnone w hw hchild).elim
  · intro p hp
    rw [h.pass] at hp
    simp at hp
  · simp [h.rounds]

/-- Where no child becomes active, everything under way goes on as before. -/
lemma Sound.wanes (h : c.Sound owner policy) {site : Site} {newer : List Store}
    (hc : Chronicle (site.store :: newer)) (hgoverned : site.store.Governed owner policy)
    (hw : Store.Wanes owner c.site.store site.store) (hsub : c.stores ⊆ site.store :: newer) :
    Sound owner policy { c with site, past := newer } := by
  constructor
  · exact hc
  · exact hgoverned
  · exact h.orderly.wanes hw
  · exact fun p hp => (h.pass p hp).wanes hw hsub
  · exact fun round hround => (h.rounds round hround).mono hsub

lemma Sound.serve (h : c.Sound owner policy) {r : Request} (hr : r.Spares owner policy c.site.store) :
    (c.serve r).Sound owner policy := by
  have hstores : (c.serve r).stores = c.site.store.stages r ++ c.stores := by
    rw [← Store.stages_tail (h.chronicle.keyed List.mem_cons_self)]
    rfl
  have hc : Chronicle (c.serve r).stores := hstores ▸ h.chronicle.stages r
  apply h.wanes hc hr.governed
  · exact fun w hw hchild => ⟨w, hr.children w hw hchild, WorkItem.Copies.refl w, id⟩
  · change c.stores ⊆ (c.serve r).stores
    rw [hstores]
    exact List.subset_append_right _ _

lemma Sound.start (h : c.Sound owner policy) (hpolicy : policy ≠ .allow) {m : Replica} {view : View}
    (hm : m.Current c.site.store) (hview : m.view? owner.key = some view)
    (huid : view.schedule.metadata.uid = owner.uid) (cap : Nat) :
    (c.start cap owner.key view).Sound owner policy := by
  have hshows := hm.shows (h.chronicle.keyed List.mem_cons_self) hview
  refine ⟨h.chronicle, h.governed, h.orderly, fun p hp => ?_, h.rounds⟩
  rw [← Option.some.inj hp]
  exact careful_run hpolicy h.chronicle h.governed h.orderly hshows huid cap

lemma Sound.call (h : c.Sound owner policy) {p : Running} (hp : c.pass = some p) (stamp : Stamp) :
    (c.call p stamp).Sound owner policy := by
  obtain ⟨horderly, hcareful⟩ := (h.pass p hp).call h.chronicle h.governed h.orderly stamp
  constructor
  · exact .turn h.chronicle (Client.step_turn _)
  · exact h.governed.step (h.chronicle.keyed List.mem_cons_self) p.rest stamp
  · exact horderly
  · intro q hq
    rw [← Option.some.inj hq]
    exact hcareful
  · exact fun round hround => (h.rounds round hround).mono (List.subset_cons_self _ _)

lemma Sound.advance (h : c.Sound owner policy) {i : Nat} {round : Client (Except StoreError Nat)}
    (hround : c.rounds[i]? = some round) (stamp : Stamp) : (c.advance i round stamp).Sound owner policy := by
  have hsound := h.rounds round (List.mem_of_getElem? hround)
  have hgoverned := h.governed.step (h.chronicle.keyed List.mem_cons_self) round stamp
  have hsub := List.subset_cons_self (round.step stamp c.site).2.store c.stores
  have hstep := h.wanes (.turn h.chronicle (Client.step_turn _)) hgoverned
    (hsound.wanes h.chronicle owner) hsub
  refine ⟨hstep.chronicle, hstep.governed, hstep.orderly, hstep.pass, fun other hother => ?_⟩
  obtain hother | rfl := List.mem_or_eq_of_mem_set hother
  · exact hstep.rounds other hother
  · exact (hsound.step h.chronicle).mono hsub

/-- Each step keeps the children of the owner in order. -/
theorem Sound.step (h : c.Sound owner policy) (hpolicy : policy ≠ .allow) (hstep : Step owner policy c d) :
    d.Sound owner policy := by
  cases hstep with
  | request hr => exact h.serve hr
  | clock now => exact h.wanes h.chronicle h.governed (Store.SameData.refl _).wanes (List.Subset.refl _)
  | start cap _ hm hview huid => exact h.start hpolicy hm hview huid cap
  | call stamp hp => exact h.call hp stamp
  | leave => exact ⟨h.chronicle, h.governed, h.orderly, by simp, h.rounds⟩
  | beginRound runtime =>
    refine ⟨h.chronicle, h.governed, h.orderly, h.pass, fun round hround => ?_⟩
    obtain rfl | hround := List.mem_cons.1 hround
    · exact Or.inl ⟨runtime, rfl⟩
    · exact h.rounds round hround
  | advance stamp hround => exact h.advance hround stamp
  | leaveRound i =>
    exact ⟨h.chronicle, h.governed, h.orderly, h.pass,
      fun round hround => h.rounds round (List.mem_of_mem_eraseIdx hround)⟩

lemma Sound.steps (h : c.Sound owner policy) (hpolicy : policy ≠ .allow)
    (hsteps : Relation.ReflTransGen (Step owner policy) c d) : d.Sound owner policy := by
  induction hsteps with
  | refl => exact h
  | tail _ hstep ih => exact ih.step hpolicy hstep

/-- Under a policy that does not allow overlaps at most one child of the owner is pending or running, between
passes and during them. -/
theorem at_most_one_active (hc : c.Begins owner policy) (hpolicy : policy ≠ .allow)
    (hsteps : Relation.ReflTransGen (Step owner policy) c d) :
    ∀ v w, .workItem v ∈ d.site.store.objects → .workItem w ∈ d.site.store.objects →
      v.metadata.isControlledBy owner = true → w.metadata.isControlledBy owner = true →
        v.Active → w.Active → v = w := by
  intro v w hv hw hvchild hwchild hvactive hwactive
  have hsound := hc.sound.steps hpolicy hsteps
  have hkey : v.metadata.key = w.metadata.key :=
    hsound.orderly.single ⟨v, hv, rfl, hvchild, hvactive⟩ ⟨w, hw, rfl, hwchild, hwactive⟩
  rw [Listing.mem_workItem] at hv hw
  rw [hkey, hw] at hv
  exact (Option.some.inj hv).symm

/-! ## A run replaced -/

def beginPass (c : Workshop) (owner : Meta) : Workshop :=
  match (Replica.empty.replace c.site.store.objects.toList c.site.store.version).1.view? owner.key with
  | some view =>
    if c.pass.isNone ∧ view.schedule.metadata.uid = owner.uid then c.start 100 owner.key view else c
  | none => c

def callNext (c : Workshop) (stamp : Stamp) : Workshop :=
  match c.pass with
  | some p => c.call p stamp
  | none => c

def advanceFirst (c : Workshop) : Workshop :=
  match c.rounds[0]? with
  | some round => c.advance 0 round .blank
  | none => c

section
variable {b : Workshop}

lemma steps_beginPass (hc : b.Begins owner policy) (hpolicy : policy ≠ .allow)
    (h : Relation.ReflTransGen (Step owner policy) b c) :
    Relation.ReflTransGen (Step owner policy) b (c.beginPass owner) := by
  have hcurrent := Replica.current_of_listing (hc.sound.steps hpolicy h).chronicle
  unfold beginPass
  split
  · rename_i view hview
    by_cases hready : c.pass.isNone ∧ view.schedule.metadata.uid = owner.uid
    · rw [if_pos hready]
      exact h.tail (.start 100 (Option.isNone_iff_eq_none.1 hready.1) hcurrent hview hready.2)
    · rw [if_neg hready]
      exact h
  · exact h

lemma steps_callNext (h : Relation.ReflTransGen (Step owner policy) b c) (stamp : Stamp) :
    Relation.ReflTransGen (Step owner policy) b (c.callNext stamp) := by
  unfold callNext
  split
  · rename_i p hp
    exact h.tail (.call stamp hp)
  · exact h

lemma steps_advanceFirst (h : Relation.ReflTransGen (Step owner policy) b c) :
    Relation.ReflTransGen (Step owner policy) b c.advanceFirst := by
  unfold advanceFirst
  split
  · rename_i round hround
    exact h.tail (.advance .blank hround)
  · exact h

end

/-- A schedule whose runs replace each other, as it is created. -/
def replacing : Schedule :=
  { Schedule.minutely with spec := { Schedule.minutely.spec with concurrency := .replace } }

def replacingOwner : Meta :=
  { replacing.metadata with uid := .ofNat 1 }

def opened : Workshop :=
  ⟨⟨Store.empty.serve (.createSchedule ⟨.ofNat 1, .ofSecond 0⟩ replacing), .ofSecond 90, []⟩, [.empty], none, []⟩

/-- The first pass has launched a work item. -/
def launched : Workshop :=
  let c := (((opened.beginPass replacingOwner).callNext .blank).callNext .blank).callNext
    ⟨.ofNat 2, .ofSecond 90⟩
  { c with pass := none }

/-- The second pass is under way when the executor starts the work item, and replaces it. -/
def replaced : Workshop :=
  let c := (((launched.setClock (.ofSecond 150)).beginPass replacingOwner).callNext .blank).beginRound 0
  ((((c.advanceFirst.advanceFirst.advanceFirst.callNext .blank).callNext .blank).callNext .blank).callNext
    ⟨.ofNat 3, .ofSecond 150⟩)

lemma opened_begins : opened.Begins replacingOwner .replace := by
  have hnone : ∀ o : Object, o ∉ Listing.empty := by
    intro o ho
    rw [Listing.mem_def] at ho
    simp at ho
  have honly : ∀ o ∈ opened.site.store.objects,
      o = .schedule (Store.empty.newSchedule ⟨.ofNat 1, .ofSecond 0⟩ replacing) := by
    intro o ho
    change o ∈ (Store.empty.createSchedule ⟨.ofNat 1, .ofSecond 0⟩ replacing).2.objects at ho
    obtain ⟨e, he⟩ | ⟨-, -, hok⟩ := Store.createSchedule_cases .empty ⟨.ofNat 1, .ofSecond 0⟩ replacing
    · rw [he] at ho
      exact (hnone o ho).elim
    · rw [hok] at ho
      exact (Listing.mem_put ho).resolve_right (hnone o)
  constructor
  · exact .serve (.createSchedule _ _) .start
  · rfl
  · rfl
  · constructor
    · intro x hx _
      rw [Object.schedule.inj (honly _ hx)]
      rfl
    · exact fun _ => rfl
  · intro w hw
    exact Object.noConfusion (honly _ hw)

lemma replaced_reached : Relation.ReflTransGen (Step replacingOwner .replace) opened replaced := by
  have hbegins := opened_begins
  have hallow : Concurrency.replace ≠ .allow := by decide
  have hfirst := steps_beginPass hbegins hallow .refl
  have hcreated := steps_callNext (steps_callNext (steps_callNext hfirst .blank) .blank) ⟨.ofNat 2, .ofSecond 90⟩
  have hlater := (hcreated.tail .leave).tail (.clock (.ofSecond 150))
  have hsecond := (steps_callNext (steps_beginPass hbegins hallow hlater) .blank).tail (.beginRound 0)
  have hstarted := steps_advanceFirst (steps_advanceFirst (steps_advanceFirst hsecond))
  have hdeleted := steps_callNext (steps_callNext (steps_callNext hstarted .blank) .blank) .blank
  exact steps_callNext hdeleted ⟨.ofNat 3, .ofSecond 150⟩

/-- A work item that the executor has just started is deleted before the next one is launched. -/
theorem at_most_one_active_replaced :
    opened.Begins replacingOwner .replace ∧ Concurrency.replace ≠ .allow ∧
      Relation.ReflTransGen (Step replacingOwner .replace) opened replaced ∧
      replaced.site.store.calls = ⟨2, 1, 3⟩ ∧
      ∀ v w, .workItem v ∈ replaced.site.store.objects → .workItem w ∈ replaced.site.store.objects →
        v.metadata.isControlledBy replacingOwner = true → w.metadata.isControlledBy replacingOwner = true →
          v.Active → w.Active → v = w := by
  have hallow : Concurrency.replace ≠ .allow := by decide
  have hcalls : replaced.site.store.calls = ⟨2, 1, 3⟩ := by decide +kernel
  exact ⟨opened_begins, hallow, replaced_reached, hcalls,
    at_most_one_active opened_begins hallow replaced_reached⟩

end Workshop

end Timetable
