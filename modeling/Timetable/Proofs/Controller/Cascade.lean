import Timetable.Proofs.Controller.AtMostOnce
import Timetable.Proofs.Controller.Removing

/-!
# Children of a deleted schedule

The deletion of a schedule deletes the children that it controls. A pass that had its status written before, or
saw a status that it need not write, does not notice the deletion and may still launch a child. No other pass
does, so nothing else brings a child of the schedule back.
-/

namespace Timetable

namespace Store
variable {owner : Meta} {s t : Store} {uid : Uid} {key : Key}

/-- Every child of an owner was there before, under the same key and with the same UID. -/
def Inherits (owner : Meta) (s t : Store) : Prop :=
  ∀ w, .workItem w ∈ t.objects → w.metadata.isControlledBy owner = true →
    ∃ v, .workItem v ∈ s.objects ∧ v.metadata.isControlledBy owner = true ∧
      v.metadata.key = w.metadata.key ∧ v.metadata.uid = w.metadata.uid

/-- No schedule has the UID. -/
def Lacks (uid : Uid) (s : Store) : Prop :=
  ∀ x, .schedule x ∈ s.objects → x.metadata.uid ≠ uid

lemma inherits_of_subset (h : ∀ w, .workItem w ∈ t.objects → .workItem w ∈ s.objects) :
    s.Inherits owner t :=
  fun w hw hchild => ⟨w, h w hw, hchild, rfl, rfl⟩

lemma KeepsItems.inherits (h : s.KeepsItems t) (huids : s.KeepsUids t) : s.Inherits owner t := by
  intro w hw hchild
  obtain ⟨v, hv, hcopies, -⟩ := h.old w hw
  rw [hcopies.isControlledBy] at hchild
  refine ⟨v, hv, hchild, hcopies.key.symm, ?_⟩
  rw [Listing.mem_workItem] at hv hw
  exact (huids _ v w hv (hcopies.key ▸ hw)).symm

/-! ## The deletion -/

lemma workItem_of_cascade {ws : List WorkItem} {w : WorkItem}
    (h : (ws.foldl (release .background owner) s).objects.workItems[key]? = some w) :
    (∀ v ∈ ws, v.metadata.key ≠ key) ∧ s.objects.workItems[key]? = some w := by
  induction ws generalizing s with
  | nil => exact ⟨by simp, h⟩
  | cons v ws ih =>
    obtain ⟨hlater, hnext⟩ := ih h
    have herase : (s.objects.erase .workItem v.metadata.key).workItems[key]? = some w := hnext
    rw [workItems_erase] at herase
    split_ifs at herase with hkey
    exact ⟨List.forall_mem_cons.2 ⟨hkey, hlater⟩, herase⟩

/-- With a schedule its children are deleted. -/
theorem childless_of_cascade (hkeyed : s.objects.Keyed) {x : Schedule}
    (hx : s.objects.schedules[key]? = some x) {w : WorkItem}
    (hw : .workItem w ∈ (s.serve (.deleteSchedule key .background)).objects) :
    w.metadata.isControlledBy x.metadata = false := by
  have hafter : (s.commit .deleted (.schedule x)).objects.Keyed :=
    hkeyed.apply ⟨.deleted, (Object.schedule x).withVersion (s.version + 1)⟩
  simp only [serve, deleteSchedule_eq hkeyed, hx] at hw
  obtain ⟨hreleased, hstored⟩ := workItem_of_cascade (Listing.mem_workItem.1 hw)
  rw [← Bool.not_eq_true]
  intro hchild
  exact hreleased w (List.mem_filter.2 ⟨hafter.mem_items.2 hstored, hchild⟩) rfl

lemma mem_of_releases {propagation : Propagation} {ws : List WorkItem} {x : Schedule}
    (h : .schedule x ∈ (ws.foldl (release propagation owner) s).objects) : .schedule x ∈ s.objects := by
  induction ws generalizing s with
  | nil => exact h
  | cons w ws ih =>
    have hrelease := ih h
    cases propagation with
    | background => exact Listing.mem_erase hrelease
    | orphan => exact (Listing.mem_put hrelease).resolve_left (by simp [Object.withVersion])

/-- A store that a lineage leads to lacks the UID of a schedule that it deletes. -/
lemma lacks_of_deleted (hdescends : Descends s s) (hkeyed : s.objects.Keyed) {x : Schedule}
    (hx : s.objects.schedules[key]? = some x) (propagation : Propagation) :
    (s.serve (.deleteSchedule key propagation)).Lacks x.metadata.uid := by
  intro y hy huid
  simp only [serve, deleteSchedule_eq hkeyed, hx] at hy
  have hgone := mem_of_releases hy
  have hxkey := hkeyed.schedule_key hx
  have hxs : .schedule x ∈ s.objects := by rwa [Listing.mem_schedule, hxkey]
  have hys : .schedule y ∈ s.objects := Listing.mem_erase hgone
  have hkey : x.metadata.key = y.metadata.key := (hdescends y x hys hxs huid).key
  have herase : (s.objects.erase .schedule x.metadata.key).get? .schedule y.metadata.key =
      some (.schedule y) := hgone
  rw [Listing.get?_erase, if_pos ⟨rfl, hkey⟩] at herase
  simp at herase

/-! ## Later requests -/

lemma Lacks.of_commit (h : s.Lacks uid) {type : ChangeType} {o : Object} (ht : SameData t (s.commit type o))
    (ho : ∀ x, o = .schedule x → x.metadata.uid ≠ uid) : t.Lacks uid := by
  intro y hy
  obtain heq | hold := mem_commit ht hy
  · cases o with
    | schedule x =>
      obtain rfl := Object.schedule.inj heq
      exact ho x rfl
    | workItem w => exact Object.noConfusion heq
  · exact h y hold

/-- Only a new schedule brings in a UID. -/
lemma Lacks.effect (h : s.Lacks uid) (hkeyed : s.objects.Keyed) {r : Request} (heffect : Effect s t r)
    (hr : ∀ stamp x, r = .createSchedule stamp x → stamp.uid ≠ uid) : t.Lacks uid := by
  cases heffect with
  | same hsame => exact fun y hy => h y (hsame.objects ▸ hy)
  | added o _ hnew hdata =>
    refine h.of_commit hdata fun x hx => ?_
    obtain ⟨stamp, y, rfl, huid⟩ := hnew x hx
    rw [huid]
    exact hr stamp y rfl
  | modified o p key hget _ huid hdata =>
    refine h.of_commit hdata fun x hx => ?_
    obtain rfl := hx
    obtain ⟨y, hy, rfl⟩ := Option.map_eq_some_iff.1 hget
    have hstored : .schedule y ∈ s.objects := by
      rwa [Listing.mem_schedule, hkeyed.schedule_key hy]
    exact huid ▸ h y hstored
  | deleted w _ _ _ hdata => exact h.of_commit hdata fun x hx => Object.noConfusion hx

theorem Lacks.serve (h : s.Lacks uid) (hkeyed : s.objects.Keyed) {r : Request}
    (hr : ∀ stamp x, r = .createSchedule stamp x → stamp.uid ≠ uid) : (s.serve r).Lacks uid := by
  cases r with
  | deleteSchedule key propagation =>
    simp only [Store.serve, deleteSchedule_eq hkeyed]
    split
    · exact h
    · exact fun y hy => h y (Listing.mem_erase (mem_of_releases hy))
  | _ => exact h.effect hkeyed (serve_effect s (by simp)) hr

end Store

/-! ## Passes -/

namespace Running

/-- What is left of a pass writes the status before it asks for anything else, or asks for nothing. -/
def Guarded (p : Running) : Prop :=
  p.rest.WritesFirst p.view.settled (fun _ _ => True) ∨ p.rest.Every fun _ => False

/-- A pass for a schedule that writes no status any more: what it saw of the status needs no writing, or it is
one of some passes that were past the status. -/
def PastStatus (passes : List Running) (x : Schedule) (p : Running) : Prop :=
  p.view.schedule.metadata.uid = x.metadata.uid ∧
    (p.view.settled = p.view.schedule ∨ ∃ q ∈ passes, q.view = p.view ∧ ¬q.Guarded)

variable {p : Running} {site : Site} {stamp : Stamp} {past : List Store} {x : Schedule} {a b : WorkItem}

lemma guarded_run (cap : Nat) (key : Key) (view : View) :
    Guarded ⟨key, view, Pass.run cap key (some view)⟩ ∨ view.settled = view.schedule := by
  have hafter : ∀ y, (fun (_ : Schedule) (_ : Client Outcome) => True) y (Pass.settle cap key view y) :=
    fun _ => trivial
  exact (Pass.run_cases cap key view hafter).imp Or.inl fun h => h.1

lemma Guarded.launched?_eq (h : p.Guarded) : p.rest.launched? stamp site = none := by
  obtain hfirst | hnothing := h
  · exact hfirst.launched?_eq
  · obtain ⟨key, view, rest⟩ := p
    cases rest with
    | createItem w next => exact (hnothing.1 stamp).elim
    | _ => rfl

/-- Where the schedule is gone the status is not written, so a guarded pass stays guarded. -/
lemma Guarded.step (h : p.Guarded) (hc : Chronicle (site.store :: past))
    (hview : Held (site.store :: past) p.view.schedule)
    (hlacks : site.store.Lacks p.view.schedule.metadata.uid) (stamp : Stamp) :
    Guarded { p with rest := (p.rest.step stamp site).1 } := by
  obtain hfirst | hnothing := h
  · obtain ⟨-, -, hrest⟩ | ⟨hstored, -⟩ := hfirst.step hc hview stamp
    · exact hrest
    · exact absurd rfl (hlacks _ hstored)
  · exact Or.inr hnothing.step

/-- A pass launches children of the schedule that it looked at. -/
lemma Sound.uid_of_launched (h : p.Sound (site.store :: past)) (hc : Chronicle (site.store :: past))
    (hlaunched : p.rest.launched? stamp site = some (a, b))
    (hb : b.metadata.isControlledBy x.metadata = true) :
    p.view.schedule.metadata.uid = x.metadata.uid := by
  have heffect : CallEffect stamp site past p := callEffect hc h
  cases heffect with
  | quiet hnone _ _ => simp [hnone] at hlaunched
  | delete c y hnone _ _ _ => simp [hnone] at hlaunched
  | create w y fire hnew hy htemplate _ hwhole _ _ _ =>
    rw [hlaunched] at hnew
    obtain ⟨rfl, rfl⟩ := Prod.mk.inj (Option.some.inj hnew)
    have hlaunch : (site.store.newWorkItem stamp a).LaunchOf y.metadata.key y.metadata.uid fire :=
      (WorkItem.launchOf_of_template htemplate hwhole).copies ⟨rfl, rfl, rfl⟩
    exact hy.2.2.1.symm.trans ((hlaunch.isControlledBy _).1 hb).1

end Running

/-! ## Runs -/

namespace World
variable {w v v' : World} {x : Schedule} {key : Key}

/-- A step in which no other client brings in a child of an owner. -/
structure Spares (owner : Meta) (w w' : World) : Prop where
  step : w.Step w'
  request : ∀ r, w' = w.serve r → w.site.store.Inherits owner w'.site.store

/-- What holds once a schedule is deleted; the passes under way then are `passes`. -/
structure Aftermath (passes : List Running) (x : Schedule) (v : World) : Prop where
  sound : v.Sound
  held : Held v.stores x
  lacks : v.site.store.Lacks x.metadata.uid
  guarded : ∀ p ∈ v.passes, p.view.schedule.metadata.uid = x.metadata.uid →
    p.Guarded ∨ p.PastStatus passes x

lemma aftermath_cascade (h : w.Sound) (hx : w.site.store.objects.schedules[key]? = some x) :
    Aftermath w.passes x (w.serve (.deleteSchedule key .background)) := by
  have hs : w.site.store ∈ w.stores := List.mem_cons_self
  constructor
  · exact h.serve trivial
  · rw [serve_stores (h.chronicle.keyed hs)]
    exact ⟨_, List.mem_append_right _ hs, Store.mem_of_get? h.chronicle hs hx⟩
  · exact Store.lacks_of_deleted (h.lineage.self _ hs) (h.chronicle.keyed hs) hx .background
  · intro p hp huid
    by_cases hguarded : p.Guarded
    · exact Or.inl hguarded
    · exact Or.inr ⟨huid, Or.inr ⟨p, hp, rfl, hguarded⟩⟩

variable {passes : List Running}

lemma Aftermath.serve (h : Aftermath passes x v) {r : Request} (hr : r.Permitted v.stores) :
    Aftermath passes x (v.serve r) := by
  constructor
  · exact h.sound.serve hr
  · rw [serve_stores (h.sound.chronicle.keyed List.mem_cons_self)]
    exact h.held.mono (List.subset_append_right _ _)
  · refine h.lacks.serve (h.sound.chronicle.keyed List.mem_cons_self) ?_
    rintro stamp y rfl huid
    exact hr x h.held huid.symm
  · exact h.guarded

lemma Aftermath.callOf (h : Aftermath passes x v) {i : Nat} {p : Running} (hp : p ∈ v.passes)
    (stamp : Stamp) : Aftermath passes x (v.callOf i p stamp) := by
  have hc : Chronicle (v.site.store :: v.past) := h.sound.chronicle
  constructor
  · exact h.sound.callOf hp stamp
  · exact h.held.mono (List.subset_cons_self _ _)
  · change (p.rest.step stamp v.site).2.store.Lacks x.metadata.uid
    have hkeyed := hc.keyed List.mem_cons_self
    obtain hsame | ⟨r, hr, heffect⟩ := Client.step_effect stamp v.site p.rest
    · rw [hsame]
      exact h.lacks
    · refine h.lacks.effect hkeyed heffect ?_
      rintro stamp' y rfl
      exact absurd hr (p.rest.request?_ne_createSchedule stamp stamp' y)
  · intro q hq huid
    obtain hmem | rfl := List.mem_or_eq_of_mem_set hq
    · exact h.guarded q hmem huid
    · have hview : Held (v.site.store :: v.past) p.view.schedule := (h.sound.passes p hp).schedule
      have hlacks : v.site.store.Lacks p.view.schedule.metadata.uid := by
        have hsame : p.view.schedule.metadata.uid = x.metadata.uid := huid
        exact hsame ▸ h.lacks
      exact (h.guarded p hp huid).imp (fun hguarded => hguarded.step hc hview hlacks stamp) id

theorem Aftermath.step (h : Aftermath passes x v) (hstep : Step v v') : Aftermath passes x v' := by
  cases hstep with
  | request hr => exact h.serve hr
  | clock now => exact ⟨h.sound.step (.clock now), h.held, h.lacks, h.guarded⟩
  | @start r m key y cap hr hy hm =>
    refine ⟨h.sound.step (.start cap hr hy hm), h.held, h.lacks, fun p hp huid => ?_⟩
    obtain rfl | hp := List.mem_cons.1 hp
    · exact (Running.guarded_run cap key (m.viewOf y)).imp id fun hsame => ⟨huid, Or.inl hsame⟩
    · exact h.guarded p hp huid
  | call i stamp =>
    unfold call
    split
    · rename_i p hp
      exact h.callOf (List.mem_of_getElem? hp) stamp
    · exact h
  | leave i =>
    refine ⟨h.sound.step (.leave i), h.held, h.lacks, fun p hp => ?_⟩
    exact h.guarded p (List.mem_of_mem_eraseIdx hp)

lemma Aftermath.steps (h : Aftermath passes x w) (hsteps : Relation.ReflTransGen (Spares x.metadata) w v) :
    Aftermath passes x v := by
  induction hsteps with
  | refl => exact h
  | tail _ hstep ih => exact ih.step hstep.step

/-- Only a pass that writes no status any more launches a child of the deleted schedule. -/
lemma Aftermath.pastStatus (h : Aftermath passes x v) {p : Running} (hp : p ∈ v.passes) {stamp : Stamp}
    {a b : WorkItem} (hlaunched : p.rest.launched? stamp v.site = some (a, b))
    (hb : b.metadata.isControlledBy x.metadata = true) : p.PastStatus passes x := by
  have hc : Chronicle (v.site.store :: v.past) := h.sound.chronicle
  obtain hguarded | hpast := h.guarded p hp ((h.sound.passes p hp).uid_of_launched hc hlaunched hb)
  · rw [hguarded.launched?_eq] at hlaunched
    simp at hlaunched
  · exact hpast

/-- A call of a pass brings in a child of an owner only by launching it. -/
lemma inherits_or_launched (h : v.Sound) {p : Running} (hp : p ∈ v.passes) (stamp : Stamp) (owner : Meta) :
    v.site.store.Inherits owner (p.rest.step stamp v.site).2.store ∨
      ∃ a b, p.rest.launched? stamp v.site = some (a, b) ∧
        (p.rest.step stamp v.site).2.store.objects = v.site.store.objects.put (.workItem b) := by
  have hc : Chronicle (v.site.store :: v.past) := h.chronicle
  have hkeyed := hc.keyed List.mem_cons_self
  have heffect : CallEffect stamp v.site v.past p := callEffect hc (h.passes p hp)
  cases heffect with
  | quiet _ _ hitems => exact Or.inl (hitems.inherits (Client.step_keepsUids hkeyed stamp p.rest))
  | create a y fire hlaunched _ _ _ _ _ hput _ => exact Or.inr ⟨a, _, hlaunched, hput⟩
  | delete c y _ _ _ herase =>
    refine Or.inl (Store.inherits_of_subset fun i hi => ?_)
    rw [herase] at hi
    exact Listing.mem_erase hi

/-- On the way from one world to another a pass launched what is now a work item, and wrote no status any
more. -/
def Launched (passes : List Running) (x : Schedule) (w v : World) (i : WorkItem) : Prop :=
  ∃ u p stamp a b, Relation.ReflTransGen (Spares x.metadata) w u ∧
    Relation.ReflTransGen (Spares x.metadata) u v ∧ p ∈ u.passes ∧
    p.rest.launched? stamp u.site = some (a, b) ∧ b.metadata.key = i.metadata.key ∧
    b.metadata.uid = i.metadata.uid ∧ p.PastStatus passes x

lemma Launched.mono {i j : WorkItem} (h : Launched passes x w v i) (hstep : Spares x.metadata v v')
    (hkey : i.metadata.key = j.metadata.key) (huid : i.metadata.uid = j.metadata.uid) :
    Launched passes x w v' j := by
  obtain ⟨u, p, stamp, a, b, hwu, huv, hp, hlaunched, hbkey, hbuid, hpast⟩ := h
  exact ⟨u, p, stamp, a, b, hwu, huv.tail hstep, hp, hlaunched, hbkey.trans hkey, hbuid.trans huid, hpast⟩

/-- All children of the deleted schedule were launched since. -/
def AllLaunched (passes : List Running) (x : Schedule) (w v : World) : Prop :=
  ∀ i, .workItem i ∈ v.site.store.objects → i.metadata.isControlledBy x.metadata = true →
    Launched passes x w v i

lemma AllLaunched.inherits (h : AllLaunched passes x w v) (hstep : Spares x.metadata v v')
    (hinherits : v.site.store.Inherits x.metadata v'.site.store) : AllLaunched passes x w v' := by
  intro i hi hchild
  obtain ⟨j, hj, hjchild, hkey, huid⟩ := hinherits i hi hchild
  exact (h j hj hjchild).mono hstep hkey huid

lemma AllLaunched.callOf (h : AllLaunched passes x w v) (haftermath : Aftermath passes x v)
    (hsteps : Relation.ReflTransGen (Spares x.metadata) w v) {i : Nat} {p : Running} {stamp : Stamp}
    (hp : p ∈ v.passes) (hstep : Spares x.metadata v (v.callOf i p stamp)) :
    AllLaunched passes x w (v.callOf i p stamp) := by
  obtain hquiet | ⟨a, b, hlaunched, hput⟩ := inherits_or_launched haftermath.sound hp stamp x.metadata
  · exact h.inherits hstep hquiet
  · intro j hj hchild
    have hstored : .workItem j ∈ v.site.store.objects.put (.workItem b) := hput ▸ hj
    obtain hnew | hold := Listing.mem_put hstored
    · obtain rfl := Object.workItem.inj hnew
      exact ⟨v, p, stamp, a, j, hsteps, .single hstep, hp, hlaunched, rfl, rfl,
        haftermath.pastStatus hp hlaunched hchild⟩
    · exact (h j hold hchild).mono hstep rfl rfl

theorem AllLaunched.step (h : AllLaunched passes x w v) (haftermath : Aftermath passes x v)
    (hsteps : Relation.ReflTransGen (Spares x.metadata) w v) (hstep : Spares x.metadata v v') :
    AllLaunched passes x w v' := by
  have hsame : v'.site.store = v.site.store → AllLaunched passes x w v' := fun hsame =>
    h.inherits hstep (Store.inherits_of_subset fun i hi => hsame ▸ hi)
  cases hstep.step with
  | @request r hr => exact h.inherits hstep (hstep.request r rfl)
  | clock now => exact hsame rfl
  | start cap hr hy hm => exact hsame rfl
  | leave i => exact hsame rfl
  | call i stamp =>
    cases hp : v.passes[i]? with
    | none =>
      apply hsame
      unfold call
      rw [hp]
    | some p =>
      rw [call_eq hp] at hstep ⊢
      exact h.callOf haftermath hsteps (List.mem_of_getElem? hp) hstep

theorem Aftermath.allLaunched (h : Aftermath passes x w)
    (hnone : ∀ i, .workItem i ∈ w.site.store.objects → i.metadata.isControlledBy x.metadata = false)
    (hsteps : Relation.ReflTransGen (Spares x.metadata) w v) : AllLaunched passes x w v := by
  induction hsteps with
  | refl =>
    intro i hi hchild
    rw [hnone i hi] at hchild
    simp at hchild
  | tail hsteps hstep ih => exact ih.step (h.steps hsteps) hsteps hstep

/-- Once a schedule is deleted no work item that it controls is left, and later ones come only from passes that
write no status any more. -/
theorem cascade_leaves_none (h : Reachable w) (hx : w.site.store.objects.schedules[key]? = some x)
    (hsteps : Relation.ReflTransGen (Spares x.metadata) (w.serve (.deleteSchedule key .background)) v) :
    (∀ i, .workItem i ∈ (w.serve (.deleteSchedule key .background)).site.store.objects →
      i.metadata.isControlledBy x.metadata = false) ∧
    (∀ p ∈ v.passes, ∀ stamp a b, p.rest.launched? stamp v.site = some (a, b) →
      b.metadata.isControlledBy x.metadata = true → p.PastStatus w.passes x) ∧
    ∀ i, .workItem i ∈ v.site.store.objects → i.metadata.isControlledBy x.metadata = true →
      Launched w.passes x (w.serve (.deleteSchedule key .background)) v i := by
  have hsound := sound_of_reachable h
  have hkeyed := hsound.chronicle.keyed List.mem_cons_self
  have haftermath := aftermath_cascade hsound hx
  have hnone : ∀ i, .workItem i ∈ (w.serve (.deleteSchedule key .background)).site.store.objects →
      i.metadata.isControlledBy x.metadata = false := fun i hi => Store.childless_of_cascade hkeyed hx hi
  refine ⟨hnone, fun p hp stamp a b hlaunched hb => ?_, haftermath.allLaunched hnone hsteps⟩
  exact (haftermath.steps hsteps).pastStatus hp hlaunched hb

/-! ## A pass that comes too late -/

lemma spares_beginFrom (h : v.Sound) {t : Store} (ht : t ∈ v.stores) (owner : Meta) (key : Key) :
    Relation.ReflTransGen (Spares owner) v (v.beginFrom t key) := by
  have hsite : (v.beginFrom t key).site = v.site := by
    unfold beginFrom
    split
    · rfl
    · rfl
  have hinherits : v.site.store.Inherits owner (v.beginFrom t key).site.store :=
    Store.inherits_of_subset fun i hi => hsite ▸ hi
  obtain hstep | hsame := h.beginFrom ht key
  · exact .single ⟨hstep, fun _ _ => hinherits⟩
  · rw [hsame]

lemma spares_call (i : Nat) (stamp : Stamp) (owner : Meta)
    (h : (v.call i stamp).site.store.objects = v.site.store.objects ∨
      (v.call i stamp).launched.length ≠ v.launched.length) : Spares owner v (v.call i stamp) := by
  refine ⟨.call i stamp, fun r hr => ?_⟩
  obtain hsame | hlaunched := h
  · exact Store.inherits_of_subset fun i hi => hsame ▸ hi
  · rw [hr] at hlaunched
    exact absurd rfl hlaunched

/-- A schedule whose status is written, when a fire is due. -/
def recorded : World :=
  let created := (new (.ofSecond 0)).serve (.createSchedule ⟨.ofNat 1, .ofSecond 0⟩ .minutely)
  let written := ((created.begin racedKey).call 0 .blank).setClock (.ofSecond 90)
  { written with passes := written.passes.eraseIdx 0 }

def deleted : World := recorded.serve (.deleteSchedule racedKey .background)

/-- A pass that still sees the deleted schedule. -/
def late : World :=
  ((deleted.beginFrom recorded.site.store racedKey).call 0 .blank).call 0 ⟨.ofNat 2, .ofSecond 90⟩

lemma recorded_reachable : Reachable recorded := by
  have hcreated := reachable_created (.ofSecond 0) ⟨.ofNat 1, .ofSecond 0⟩ .minutely
  have hwritten := (hcreated.begin racedKey).tail (.call 0 .blank)
  exact (hwritten.tail (.clock (.ofSecond 90))).tail (.leave 0)

lemma late_spares (owner : Meta) : Relation.ReflTransGen (Spares owner) deleted late := by
  have hdeleted : Reachable deleted := recorded_reachable.tail (.request trivial)
  have hseen : recorded.site.store ∈ deleted.stores := by
    unfold deleted
    rw [serve_stores ((sound_of_reachable recorded_reachable).chronicle.keyed List.mem_cons_self)]
    exact List.mem_append_right _ List.mem_cons_self
  have hbegun := spares_beginFrom (sound_of_reachable hdeleted) hseen owner racedKey
  have hread := hbegun.tail (spares_call 0 .blank owner (Or.inl (by decide +kernel)))
  exact hread.tail (spares_call 0 ⟨.ofNat 2, .ofSecond 90⟩ owner (Or.inr (by decide +kernel)))

lemma recorded_schedule : ∃ x, recorded.site.store.objects.schedules[racedKey]? = some x :=
  Option.isSome_iff_exists.1 (by decide +kernel)

/-- The late pass launches a child; what it saw of the status needed no writing. -/
theorem cascade_leaves_none_late : ∃ x, Reachable recorded ∧
    recorded.site.store.objects.schedules[racedKey]? = some x ∧
    Relation.ReflTransGen (Spares x.metadata) (recorded.serve (.deleteSchedule racedKey .background)) late ∧
    (∀ i, .workItem i ∈ (recorded.serve (.deleteSchedule racedKey .background)).site.store.objects →
      i.metadata.isControlledBy x.metadata = false) ∧
    (∀ p ∈ late.passes, ∀ stamp a b, p.rest.launched? stamp late.site = some (a, b) →
      b.metadata.isControlledBy x.metadata = true → p.PastStatus recorded.passes x) ∧
    ∀ i, .workItem i ∈ late.site.store.objects → i.metadata.isControlledBy x.metadata = true →
      Launched recorded.passes x (recorded.serve (.deleteSchedule racedKey .background)) late i := by
  obtain ⟨x, hx⟩ := recorded_schedule
  have hlate := late_spares x.metadata
  exact ⟨x, recorded_reachable, hx, hlate, cascade_leaves_none recorded_reachable hx hlate⟩

/-- After the deletion of its schedule a work item that the schedule controls is stored. -/
theorem cascade_leaves_one : ∃ x, Reachable recorded ∧
    recorded.site.store.objects.schedules[racedKey]? = some x ∧
    Relation.ReflTransGen (Spares x.metadata) (recorded.serve (.deleteSchedule racedKey .background)) late ∧
    ∃ i, .workItem i ∈ late.site.store.objects ∧ i.metadata.isControlledBy x.metadata = true := by
  let owner : Meta := { Schedule.minutely.metadata with uid := .ofNat 1 }
  have howner : (recorded.site.store.objects.schedules[racedKey]?).map (fun x => (x.metadata.uid, x.metadata.space)) =
      some (owner.uid, owner.space) := by decide +kernel
  have hchild : ∃ i ∈ late.site.store.objects.items, i.metadata.isControlledBy owner = true := by
    decide +kernel
  obtain ⟨x, hx, hsame⟩ := Option.map_eq_some_iff.1 howner
  obtain ⟨huid, hspace⟩ := Prod.mk.inj hsame
  obtain ⟨i, hi, hcontrolled⟩ := hchild
  have hlate := late_spares x.metadata
  have haftermath := (aftermath_cascade (sound_of_reachable recorded_reachable) hx).steps hlate
  have hkeyed := haftermath.sound.chronicle.keyed List.mem_cons_self
  refine ⟨x, recorded_reachable, hx, hlate, i, ?_, ?_⟩
  · exact Listing.mem_workItem.2 (hkeyed.mem_items.1 hi)
  · unfold Meta.isControlledBy at hcontrolled ⊢
    rw [huid, hspace]
    exact hcontrolled

end World

end Timetable
