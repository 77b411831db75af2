import Mathlib.Logic.Relation
import Timetable.Proofs.Replica.Index
import Timetable.Proofs.Store.Watching

/-!
# Replicas show the past

A reflector keeps a replica of a store: it lists, takes in the listing, opens a watch at the version of the
listing, and takes in one change after the other, while requests come in between. At every moment its
replica holds what the store held at some version, and this version never goes back.
-/

namespace Timetable

/-- What a reflector does next: list, take in a listing, open a watch, or follow it. -/
inductive Stage
  | listing
  | listed (objects : List Object) (version : Nat)
  | opening (version : Nat)
  | following (w : Watch)

structure Reflector where
  replica : Replica
  stage : Stage

namespace Reflector

def new : Reflector := ⟨.empty, .listing⟩

/-- The next step over a store if nothing goes wrong. A watch that is not available or has ended makes the
reflector list again. -/
def advance (s : Store) (m : Reflector) : Reflector :=
  match m.stage with
  | .listing => { m with stage := .listed s.objects.toList s.version }
  | .listed objects version => ⟨(m.replica.replace objects version).1, .opening version⟩
  | .opening version =>
    match Watch.openAt s version with
    | .ok w => { m with stage := .following w }
    | .error _ => { m with stage := .listing }
  | .following w =>
    match w.poll s with
    | .change c rest => ⟨(m.replica.apply c).1, .following rest⟩
    | .waiting rest => { m with stage := .following rest }
    | .ended => { m with stage := .listing }

/-- A reflector takes its next step, or a failure makes it list again. -/
inductive Step (s : Store) (m : Reflector) : Reflector → Prop
  | advance : Step s m (m.advance s)
  | relist : Step s m { m with stage := .listing }

/-- What a stage needs of the stores so far and the version last seen. -/
def Stage.Fits (stores : List Store) (seen : Nat) : Stage → Prop
  | .listing => True
  | .listed objects version =>
    ∃ t ∈ stores, t.version = version ∧ t.objects.toList = objects ∧ seen ≤ version
  | .opening version => version = seen
  | .following w => w.Tracks (journal stores) seen

/-- The replica holds what one of the stores held at the version last seen. -/
structure Faithful (stores : List Store) (m : Reflector) : Prop where
  past : ∃ t ∈ stores, t.version = m.replica.lastSeen ∧ t.objects = m.replica.objects
  fits : Stage.Fits stores m.replica.lastSeen m.stage
  indexed : m.replica.Indexed

variable {stores past : List Store} {s : Store} {m n : Reflector}

lemma faithful_new : Faithful [.empty] new := by
  constructor
  · exact ⟨.empty, List.mem_singleton_self _, rfl, rfl⟩
  · trivial
  · exact Replica.indexed_empty

/-- A replica stays faithful while the store goes on. -/
lemma Faithful.append (h : m.Faithful (s :: past)) (new : List Store) : m.Faithful (new ++ s :: past) := by
  have hsub : s :: past ⊆ new ++ s :: past := List.subset_append_right _ _
  constructor
  · obtain ⟨t, ht, hpast⟩ := h.past
    exact ⟨t, hsub ht, hpast⟩
  · have hfits := h.fits
    cases hstage : m.stage with
    | listing => trivial
    | listed objects version =>
      rw [hstage] at hfits
      obtain ⟨t, ht, hlisted⟩ := hfits
      exact ⟨t, hsub ht, hlisted⟩
    | opening version =>
      rw [hstage] at hfits
      exact hfits
    | following w =>
      rw [hstage] at hfits
      exact Watch.Tracks.mono hfits (journal_append new s past)
  · exact h.indexed

/-- A listing taken in late still moves the replica forward. -/
lemma Faithful.replace {r : Replica} {objects : List Object} {version : Nat} (hc : Chronicle stores)
    (h : Faithful stores ⟨r, .listed objects version⟩) :
    Faithful stores ⟨(r.replace objects version).1, .opening version⟩ := by
  obtain ⟨t, ht, rfl, rfl, hle⟩ := h.fits
  obtain ⟨u, hu, -, hobjects⟩ := h.past
  dsimp only at hobjects hle
  have hseen : (r.replace t.objects.toList t.version).1.lastSeen = t.version := by
    rw [Replica.replace_lastSeen, max_eq_right hle]
  have hkeyed : r.objects.Keyed := hobjects ▸ hc.keyed hu
  have hagrees : r.Agrees t.objects := by
    intro o ho p hp hversion
    obtain hp | hp := hp
    · exact hc.mem_eq hu ht (hobjects ▸ hp) ho hversion
    · exact hc.mem_eq ht ht hp ho hversion
  constructor
  · exact ⟨t, ht, hseen.symm, (Replica.replace_objects hkeyed (hc.keyed ht) hagrees _).symm⟩
  · exact hseen.symm
  · exact h.indexed.replace _ _

/-- The change after the version last seen makes the replica what the store was next. -/
lemma Faithful.apply {r : Replica} {stage next : Stage} {c : Change} (hc : Chronicle stores)
    (h : Faithful stores ⟨r, stage⟩) (hrecorded : Recorded stores c)
    (hversion : c.version = r.lastSeen + 1) (hfits : Stage.Fits stores (r.lastSeen + 1) next) :
    Faithful stores ⟨(r.apply c).1, next⟩ := by
  obtain ⟨t, ht, hseen, hobjects⟩ := h.past
  obtain ⟨before, hbefore, after, hafter, hcv, hav, heffect⟩ := hrecorded
  dsimp only at hseen hobjects
  have hsame : before.objects = r.objects := by
    rw [← hobjects]
    exact hc.objects_eq hbefore ht (by omega)
  have hkeyed : r.objects.Keyed := hobjects ▸ hc.keyed ht
  have hnewer : ∀ o ∈ r.objects, o.version < c.version := by
    intro o ho
    have hle := hc.mem_version_le ht (hobjects ▸ ho)
    omega
  have hnext : (r.apply c).1.lastSeen = r.lastSeen + 1 := by
    rw [Replica.apply_lastSeen, hversion]
    omega
  constructor
  · refine ⟨after, hafter, ?_, ?_⟩
    · rw [hav, hnext, ← hversion, hcv]
    · rw [heffect, hsame]
      exact (Replica.apply_objects hkeyed hnewer).symm
  · dsimp only
    rw [hnext]
    exact hfits
  · exact h.indexed.apply c

theorem Faithful.advance (hc : Chronicle (s :: past)) (h : m.Faithful (s :: past)) :
    (m.advance s).Faithful (s :: past) := by
  obtain ⟨r, stage⟩ := m
  have hs : s ∈ s :: past := List.mem_cons_self
  obtain ⟨t, ht, hseen, -⟩ := h.past
  have hle : r.lastSeen ≤ s.version := hseen ▸ hc.version_le_head ht
  cases stage with
  | listing => exact ⟨h.past, ⟨s, hs, rfl, rfl, hle⟩, h.indexed⟩
  | listed objects version => exact h.replace hc
  | opening version =>
    have hat : version = r.lastSeen := h.fits
    unfold Reflector.advance
    dsimp only
    split
    · rename_i w hopen
      rw [hat] at hopen
      exact ⟨h.past, .of_openAt hc hle hopen, h.indexed⟩
    · exact ⟨h.past, trivial, h.indexed⟩
  | following w =>
    have htracks : w.Tracks (journal (s :: past)) r.lastSeen := h.fits
    have hpoll := htracks.poll hc
    unfold Reflector.advance
    dsimp only
    split
    · rename_i c rest hchange
      rw [hchange] at hpoll
      exact h.apply hc hpoll.2.1 hpoll.1 hpoll.2.2
    · rename_i rest hwaiting
      rw [hwaiting] at hpoll
      exact ⟨h.past, hpoll, h.indexed⟩
    · exact ⟨h.past, trivial, h.indexed⟩

theorem Faithful.step (hc : Chronicle (s :: past)) (h : m.Faithful (s :: past)) (hstep : m.Step s n) :
    n.Faithful (s :: past) := by
  cases hstep with
  | advance => exact h.advance hc
  | relist => exact ⟨h.past, trivial, h.indexed⟩

lemma advance_lastSeen_le (s : Store) (m : Reflector) :
    m.replica.lastSeen ≤ (m.advance s).replica.lastSeen := by
  unfold advance
  split
  · exact le_rfl
  · rw [Replica.replace_lastSeen]
    exact le_max_left _ _
  · split
    · exact le_rfl
    · exact le_rfl
  · split
    · rw [Replica.apply_lastSeen]
      exact le_max_left _ _
    · exact le_rfl
    · exact le_rfl

lemma Step.lastSeen_le (h : m.Step s n) : m.replica.lastSeen ≤ n.replica.lastSeen := by
  cases h with
  | advance => exact advance_lastSeen_le s m
  | relist => exact le_rfl

end Reflector

/-! ## Runs -/

/-- A reflector over a store, with the stores before, the last one first. -/
structure Mirroring where
  store : Store
  past : List Store
  reflector : Reflector

namespace Mirroring

def new : Mirroring := ⟨.empty, [], .new⟩

def stores (c : Mirroring) : List Store := c.store :: c.past

def serve (c : Mirroring) (r : Request) : Mirroring :=
  { c with store := c.store.serve r, past := (c.store.stages r).tail ++ c.stores }

def advance (c : Mirroring) : Mirroring :=
  { c with reflector := c.reflector.advance c.store }

/-- Any request is served, or the reflector takes a step. -/
inductive Step (c : Mirroring) : Mirroring → Prop
  | request (r : Request) : Step c (c.serve r)
  | reflect {m : Reflector} : c.reflector.Step c.store m → Step c { c with reflector := m }

def Reachable (c : Mirroring) : Prop :=
  Relation.ReflTransGen Step new c

variable {c d : Mirroring}

lemma reachable_new : Reachable new := Relation.ReflTransGen.refl

lemma Reachable.serve (h : Reachable c) (r : Request) : Reachable (c.serve r) :=
  Relation.ReflTransGen.tail h (.request r)

lemma Reachable.advance (h : Reachable c) : Reachable c.advance :=
  Relation.ReflTransGen.tail h (.reflect .advance)

lemma serve_stores (hkeyed : c.store.objects.Keyed) (r : Request) :
    (c.serve r).stores = c.store.stages r ++ c.stores := by
  rw [← Store.stages_tail hkeyed]
  rfl

lemma faithful_of_reachable (h : Reachable c) :
    Chronicle c.stores ∧ c.reflector.Faithful c.stores := by
  induction h with
  | refl => exact ⟨.start, Reflector.faithful_new⟩
  | tail _ hstep ih =>
    obtain ⟨hc, hf⟩ := ih
    cases hstep with
    | request r =>
      rw [serve_stores (hc.keyed List.mem_cons_self)]
      exact ⟨hc.stages r, hf.append _⟩
    | reflect hm => exact ⟨hc, hf.step hc hm⟩

lemma lastSeen_le (h : Relation.ReflTransGen Step c d) :
    c.reflector.replica.lastSeen ≤ d.reflector.replica.lastSeen := by
  induction h with
  | refl => exact le_rfl
  | tail _ hstep ih =>
    cases hstep with
    | request => exact ih
    | reflect hm => exact ih.trans hm.lastSeen_le

/-- The replica always holds what the store held at the version last seen, which never goes back. -/
theorem replica_shows_past (h : Reachable c) :
    (∃ t ∈ c.stores, t.version = c.reflector.replica.lastSeen) ∧
      (∀ t ∈ c.stores, t.version = c.reflector.replica.lastSeen →
        t.objects = c.reflector.replica.objects) ∧
      ∀ d, Relation.ReflTransGen Step c d →
        c.reflector.replica.lastSeen ≤ d.reflector.replica.lastSeen := by
  obtain ⟨hc, hf⟩ := faithful_of_reachable h
  obtain ⟨u, hu, hseen, hobjects⟩ := hf.past
  refine ⟨⟨u, hu, hseen⟩, ?_, fun d hd => lastSeen_le hd⟩
  intro t ht hversion
  rw [← hobjects]
  exact hc.objects_eq ht hu (hversion.trans hseen.symm)

/-- A schedule was created and listed, deleted before the listing was taken in, and created again after the
deletion was. -/
def behind : Mirroring :=
  let listed := (new.serve (.createSchedule ⟨.ofNat 1, .ofSecond 0⟩ .minutely)).advance
  let opened := (listed.serve (.deleteSchedule Schedule.minutely.metadata.key .background)).advance.advance
  opened.advance.serve (.createSchedule ⟨.ofNat 2, .ofSecond 60⟩ .minutely)

lemma behind_reachable : Reachable behind := by
  have hlisted := (reachable_new.serve (.createSchedule ⟨.ofNat 1, .ofSecond 0⟩ .minutely)).advance
  have hopened :=
    (hlisted.serve (.deleteSchedule Schedule.minutely.metadata.key .background)).advance.advance
  exact hopened.advance.serve (.createSchedule ⟨.ofNat 2, .ofSecond 60⟩ .minutely)

/-- The replica shows the store between two lives of one name. -/
theorem replica_shows_past_behind :
    Reachable behind ∧ behind.store.version = 3 ∧ behind.reflector.replica.lastSeen = 2 ∧
      (∃ t ∈ behind.stores, t.version = 2) ∧
      (∀ t ∈ behind.stores, t.version = 2 → t.objects = behind.reflector.replica.objects) ∧
      ∀ d, Relation.ReflTransGen Step behind d → 2 ≤ d.reflector.replica.lastSeen := by
  have hversion : behind.store.version = 3 := by decide +kernel
  have hseen : behind.reflector.replica.lastSeen = 2 := by decide +kernel
  have hshows := replica_shows_past behind_reachable
  rw [hseen] at hshows
  exact ⟨behind_reachable, hversion, hseen, hshows⟩

end Mirroring

end Timetable
