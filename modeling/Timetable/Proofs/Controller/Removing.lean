import Timetable.Proofs.Controller.Overlap
import Timetable.Proofs.Store.Identity

/-!
# What passes take out of the store

A pass deletes by key, and only keys of children that it has seen. Other clients may ask for whatever they like
in the meantime. What a pass takes out is the child that it saw, unless the key of the child was free since.
-/

namespace Timetable

namespace Client
variable {α : Type} {stamp : Stamp} {site : Site} {P : Request → Prop} {v : WorkItem}

/-- The next call of a client takes a work item out of the store. -/
def Removes (stamp : Stamp) (site : Site) (v : WorkItem) (c : Client α) : Prop :=
  .workItem v ∈ site.store.objects ∧
    ∀ w, (c.step stamp site).2.store.objects.workItems[v.metadata.key]? = some w →
      w.metadata.uid ≠ v.metadata.uid

lemma WritesFirst.every {x : Schedule} {after : Schedule → Client α → Prop} {c : Client α}
    (h : c.WritesFirst x after) (hfirst : P (.updateScheduleStatus x))
    (hafter : ∀ y c, after y c → c.Every P) : c.Every P := by
  induction c with
  | note r next ih => exact ih h
  | writeScheduleStatus y next _ =>
    obtain ⟨rfl, hok, herror⟩ := h
    refine ⟨hfirst, fun r => ?_⟩
    cases r with
    | ok y => exact hafter y _ (hok y)
    | error e => exact (herror e).mono fun r hr => hr.elim
  | _ => exact h.elim

lemma request?_ne_createSchedule (c : Client α) (stamp stamp' : Stamp) (x : Schedule) :
    c.request? stamp ≠ some (.createSchedule stamp' x) := by
  cases c <;> simp [request?]

lemma request?_ne_deleteSchedule (c : Client α) (stamp : Stamp) (key : Key) (propagation : Propagation) :
    c.request? stamp ≠ some (.deleteSchedule key propagation) := by
  cases c <;> simp [request?]

/-- The next call of a client leaves the data of the store alone or has the effect of its request. -/
lemma step_effect (stamp : Stamp) (site : Site) (c : Client α) :
    (c.step stamp site).2.store = site.store ∨
      ∃ r, c.request? stamp = some r ∧ site.store.Effect (c.step stamp site).2.store r := by
  rw [step_store]
  cases hr : c.request? stamp with
  | none => exact Or.inl rfl
  | some r =>
    refine Or.inr ⟨r, rfl, Store.serve_effect _ ?_⟩
    rintro key propagation rfl
    exact c.request?_ne_deleteSchedule stamp key propagation hr

lemma step_keepsUids (hkeyed : site.store.objects.Keyed) (stamp : Stamp) (c : Client α) :
    site.store.KeepsUids (c.step stamp site).2.store := by
  obtain hsame | ⟨r, -, heffect⟩ := step_effect stamp site c
  · rw [hsame]
    exact (Store.SameData.refl _).keepsUids
  · exact heffect.keepsUids hkeyed

end Client

/-! ## One pass -/

/-- A request that a pass may make: what it deletes are children that it has seen. -/
def View.Allows (view : View) : Request → Prop
  | .updateScheduleStatus _ | .createWorkItem _ _ => True
  | .deleteWorkItem key => ∃ c ∈ view.children, c.metadata.key = key
  | _ => False

/-- A pass has seen children that its schedule controls, and deletes no others. -/
structure Running.Observes (stores : List Store) (p : Running) : Prop where
  children : ∀ c ∈ p.view.children,
    c.metadata.isControlledBy p.view.schedule.metadata = true ∧ ∃ u ∈ stores, .workItem c ∈ u.objects
  program : p.rest.Every p.view.Allows

section
variable {view : View} {p : Running} {stores old : List Store} {site : Site} {stamp : Stamp} {v : WorkItem}

lemma Pass.Asks.allows {y : Schedule} {r : Request} (h : Asks view y r) : view.Allows r := by
  cases r with
  | createWorkItem stamp w => trivial
  | deleteWorkItem key => exact h
  | _ => exact h.elim

lemma Pass.run_allows (cap : Nat) (key : Key) (view : View) :
    (run cap key (some view)).Every view.Allows := by
  obtain hfirst | ⟨-, hevery⟩ := run_every cap key view
  · exact hfirst.every trivial fun y c hc => hc.mono fun r => Asks.allows
  · exact hevery.mono fun r => Asks.allows

lemma Running.Observes.mono (h : p.Observes old) (hsub : old ⊆ stores) : p.Observes stores := by
  refine ⟨fun c hc => ?_, h.program⟩
  obtain ⟨hcontrolled, u, hu, hseen⟩ := h.children c hc
  exact ⟨hcontrolled, u, hsub hu, hseen⟩

/-- What a pass takes out of the store stands under the key of a child that it has seen. -/
theorem Client.Removes.allows {α : Type} {c : Client α} (h : c.Removes stamp site v)
    (hkeyed : site.store.objects.Keyed) (hc : c.Every view.Allows) :
    ∃ child ∈ view.children, child.metadata.key = v.metadata.key := by
  obtain ⟨hv, hgone⟩ := h
  rw [Listing.mem_workItem] at hv
  obtain hsame | ⟨r, hr, heffect⟩ := step_effect stamp site c
  · rw [hsame] at hgone
    exact absurd rfl (hgone v hv)
  · obtain ⟨w, hw⟩ | rfl := heffect.stays hkeyed hv
    · exact absurd (heffect.keepsUids hkeyed _ v w hv hw) (hgone w hw)
    · exact hc.request hr

end

/-! ## Runs -/

namespace World
variable {w w' : World}

/-- What may happen next when other clients ask for whatever they like. -/
inductive Move (w : World) : World → Prop
  | step {w' : World} : w.Step w' → Move w w'
  | request (r : Request) : Move w (w.serve r)

def Attainable (w : World) : Prop :=
  ∃ clock, Relation.ReflTransGen Move (new clock) w

structure Traced (w : World) : Prop where
  chronicle : Chronicle w.stores
  uids : Store.UidChain w.stores
  passes : ∀ p ∈ w.passes, p.Observes w.stores

lemma traced_new (clock : Instant) : (new clock).Traced :=
  ⟨.start, List.isChain_singleton _, by simp [new]⟩

lemma Traced.keyed (h : w.Traced) : w.site.store.objects.Keyed :=
  h.chronicle.keyed List.mem_cons_self

lemma Traced.serve (h : w.Traced) (r : Request) : (w.serve r).Traced := by
  constructor
  · rw [serve_stores h.keyed]
    exact h.chronicle.stages r
  · rw [serve_stores h.keyed]
    exact h.uids.stages h.keyed r
  · intro p hp
    rw [serve_stores h.keyed]
    exact (h.passes p hp).mono (List.subset_append_right _ _)

lemma Traced.callOf (h : w.Traced) {i : Nat} {p : Running} (hp : p ∈ w.passes) (stamp : Stamp) :
    (w.callOf i p stamp).Traced := by
  have hsub : w.stores ⊆ (w.callOf i p stamp).stores := List.subset_cons_self _ _
  constructor
  · exact .turn h.chronicle (Client.step_turn _)
  · exact h.uids.cons (Client.step_keepsUids h.keyed stamp p.rest)
  · intro q hq
    obtain hmem | rfl := List.mem_or_eq_of_mem_set hq
    · exact (h.passes q hmem).mono hsub
    · obtain ⟨hchildren, hprogram⟩ := (h.passes p hp).mono hsub
      exact ⟨hchildren, hprogram.step⟩

lemma Traced.start (h : w.Traced) {m : Replica} (hm : m.Shows w.stores) (x : Schedule) (cap : Nat)
    (key : Key) : Running.Observes w.stores ⟨key, m.viewOf x, Pass.run cap key (some (m.viewOf x))⟩ := by
  obtain ⟨u, hu, hobjects⟩ := hm
  constructor
  · intro c hc
    exact ⟨(List.mem_filter.1 hc).2, u, hu, held_of_viewOf h.chronicle hu hobjects c hc⟩
  · exact Pass.run_allows cap key _

theorem Traced.move (h : w.Traced) (hmove : Move w w') : w'.Traced := by
  cases hmove with
  | request r => exact h.serve r
  | step hstep =>
    cases hstep with
    | @request r hr => exact h.serve r
    | clock now => exact ⟨h.chronicle, h.uids, h.passes⟩
    | @start r m key x cap hr hx hm =>
      refine ⟨h.chronicle, h.uids, fun p hp => ?_⟩
      obtain rfl | hp := List.mem_cons.1 hp
      · exact h.start hm x cap key
      · exact h.passes p hp
    | call i stamp =>
      unfold call
      split
      · rename_i p hp
        exact h.callOf (List.mem_of_getElem? hp) stamp
      · exact h
    | leave i => exact ⟨h.chronicle, h.uids, fun p hp => h.passes p (List.mem_of_mem_eraseIdx hp)⟩

theorem traced_of_attainable (h : Attainable w) : w.Traced := by
  obtain ⟨clock, hmoves⟩ := h
  induction hmoves with
  | refl => exact traced_new clock
  | tail _ hmove ih => exact ih.move hmove

/-- What a pass takes out of the store stands under the key of a child that the pass saw and its schedule
controls. It is that child, unless nothing stood under the key in some store since the child was seen. -/
theorem removes_what_was_seen (h : Attainable w) {p : Running} (hp : p ∈ w.passes) {stamp : Stamp}
    {v : WorkItem} (hv : p.rest.Removes stamp w.site v) :
    ∃ c ∈ p.view.children, c.metadata.isControlledBy p.view.schedule.metadata = true ∧
      c.metadata.key = v.metadata.key ∧ (∃ u ∈ w.stores, .workItem c ∈ u.objects) ∧
      ∀ u ∈ w.stores, .workItem c ∈ u.objects → v.metadata.uid = c.metadata.uid ∨
        ∃ t ∈ w.stores, u.version ≤ t.version ∧ t.objects.workItems[c.metadata.key]? = none := by
  have htraced := traced_of_attainable h
  have hobserves := htraced.passes p hp
  obtain ⟨c, hc, hkey⟩ := hv.allows htraced.keyed hobserves.program
  obtain ⟨hcontrolled, hseen⟩ := hobserves.children c hc
  refine ⟨c, hc, hcontrolled, hkey, hseen, fun u hu hcu => ?_⟩
  have hnow := Listing.mem_workItem.1 hv.1
  rw [← hkey] at hnow
  exact htraced.uids.uid_eq htraced.chronicle.pairwise_version hu (Listing.mem_workItem.1 hcu) hnow

/-! ## A namesake -/

/-- A work item of another client, under the key of a child. -/
def stranger : WorkItem :=
  ⟨Meta.new "jobs" "tick-60" .blank, .bool true, .initial⟩

/-- A pass is about to replace the child that the one before it launched. -/
def replacing : World :=
  let due := ((new (.ofSecond 0)).serve (.createSchedule ⟨.ofNat 1, .ofSecond 0⟩ Workshop.replacing)).begin
    racedKey
  let launched := (((due.call 0 .blank).setClock (.ofSecond 90)).call 0 .blank).call 0 ⟨.ofNat 2, .ofSecond 90⟩
  (((launched.setClock (.ofSecond 150)).begin racedKey).call 0 .blank).call 0 .blank

/-- Meanwhile the child was deleted, and its key was taken. -/
def usurped : World :=
  (replacing.serve (.deleteWorkItem stranger.metadata.key)).serve
    (.createWorkItem ⟨.ofNat 3, .ofSecond 150⟩ stranger)

lemma Reachable.attainable (h : Reachable w) : Attainable w := by
  obtain ⟨clock, hsteps⟩ := h
  exact ⟨clock, Relation.ReflTransGen.mono (fun _ _ => Move.step) _ _ hsteps⟩

lemma replacing_reachable : Reachable replacing := by
  have hcreated := reachable_created (.ofSecond 0) ⟨.ofNat 1, .ofSecond 0⟩ Workshop.replacing
  have hdue := (hcreated.begin racedKey).tail (.call 0 .blank)
  have hlaunched := ((hdue.tail (.clock (.ofSecond 90))).tail (.call 0 .blank)).tail
    (.call 0 ⟨.ofNat 2, .ofSecond 90⟩)
  have hagain := (hlaunched.tail (.clock (.ofSecond 150))).begin racedKey
  exact (hagain.tail (.call 0 .blank)).tail (.call 0 .blank)

lemma usurped_reachable : Reachable usurped := by
  have hdeleted : Request.Permitted replacing.stores (.deleteWorkItem stranger.metadata.key) := trivial
  have hcreated : Request.Permitted (replacing.serve (.deleteWorkItem stranger.metadata.key)).stores
      (.createWorkItem ⟨.ofNat 3, .ofSecond 150⟩ stranger) := trivial
  have hnext := replacing_reachable.tail (.request hdeleted)
  exact hnext.tail (.request hcreated)

lemma removes_of_stored {p : Running} {v : WorkItem}
    (hv : w.site.store.objects.workItems[stranger.metadata.key]? = some v) (hkeyed : w.site.store.objects.Keyed)
    (hgone : (p.rest.step .blank w.site).2.store.objects.workItems[stranger.metadata.key]? = none) :
    p.rest.Removes .blank w.site v := by
  have hkey := hkeyed.workItem_key hv
  refine ⟨Listing.mem_workItem.2 (hkey ▸ hv), fun u hu => ?_⟩
  rw [hkey, hgone] at hu
  simp at hu

/-- The pass takes out the child that it saw. -/
theorem removes_what_was_seen_replacing :
    Attainable replacing ∧ ∃ p ∈ replacing.passes, ∃ v, p.rest.Removes .blank replacing.site v ∧
      v.metadata.uid = .ofNat 2 ∧
      ∃ c ∈ p.view.children, c.metadata.isControlledBy p.view.schedule.metadata = true ∧
        c.metadata.key = v.metadata.key ∧ (∃ u ∈ replacing.stores, .workItem c ∈ u.objects) ∧
        ∀ u ∈ replacing.stores, .workItem c ∈ u.objects → v.metadata.uid = c.metadata.uid ∨
          ∃ t ∈ replacing.stores, u.version ≤ t.version ∧ t.objects.workItems[c.metadata.key]? = none := by
  have hstored : (replacing.site.store.objects.workItems[stranger.metadata.key]?).map (·.metadata.uid) =
      some (.ofNat 2) := by decide +kernel
  have hpass : ∃ p ∈ replacing.passes,
      (p.rest.step .blank replacing.site).2.store.objects.workItems[stranger.metadata.key]? = none := by
    decide +kernel
  obtain ⟨v, hv, huid⟩ := Option.map_eq_some_iff.1 hstored
  obtain ⟨p, hp, hgone⟩ := hpass
  have hattained := replacing_reachable.attainable
  have hremoves := removes_of_stored hv (traced_of_attainable hattained).keyed hgone
  exact ⟨hattained, p, hp, v, hremoves, huid, removes_what_was_seen hattained hp hremoves⟩

/-- Once the key was taken, the pass takes out a work item that it has never seen. -/
theorem removes_a_namesake :
    Attainable usurped ∧ ∃ p ∈ usurped.passes, ∃ v, p.rest.Removes .blank usurped.site v ∧
      ∀ c ∈ p.view.children, v.metadata.uid ≠ c.metadata.uid := by
  have hstored : (usurped.site.store.objects.workItems[stranger.metadata.key]?).map (·.metadata.uid) =
      some (.ofNat 3) := by decide +kernel
  have hpass : ∃ p ∈ usurped.passes,
      (p.rest.step .blank usurped.site).2.store.objects.workItems[stranger.metadata.key]? = none ∧
        ∀ c ∈ p.view.children, Uid.ofNat 3 ≠ c.metadata.uid := by
    decide +kernel
  obtain ⟨v, hv, huid⟩ := Option.map_eq_some_iff.1 hstored
  obtain ⟨p, hp, hgone, hunseen⟩ := hpass
  have hattained := usurped_reachable.attainable
  refine ⟨hattained, p, hp, v, removes_of_stored hv (traced_of_attainable hattained).keyed hgone, ?_⟩
  rw [huid]
  exact hunseen

end World

end Timetable
