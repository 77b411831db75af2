import Timetable.Proofs.Replica.Reflection
import Timetable.Replica.Feed

/-!
# Feeds are reflectors

A feed that settles lists, opens a watch and takes in all that is ready at once. It does what a reflector
does step by step while the store stays the same, so a fed replica shows the past as well.
-/

namespace Timetable

open Relation

namespace Replica

lemma applyAll_append (r : Replica) (cs ds : List Change) :
    (r.applyAll (cs ++ ds)).1 = ((r.applyAll cs).1.applyAll ds).1 := by
  induction cs generalizing r with
  | nil => rfl
  | cons c cs ih => exact ih (r.apply c).1

end Replica

namespace Reflector
variable {past : List Store} {s : Store} {m n : Reflector} {w : Watch} {start position : Nat}

lemma Faithful.steps (hc : Chronicle (s :: past)) (h : m.Faithful (s :: past))
    (hsteps : ReflTransGen (Step s) m n) : n.Faithful (s :: past) := by
  induction hsteps with
  | refl => exact h
  | tail _ hstep ih => exact ih.step hc hstep

lemma steps_backlog (s : Store) (start position : Nat) (r : Replica) (cs : List Change) :
    ReflTransGen (Step s) ⟨r, .following ⟨start, cs, position⟩⟩
      ⟨(r.applyAll cs).1, .following ⟨start, [], position⟩⟩ := by
  induction cs generalizing r with
  | nil => exact .refl
  | cons c cs ih => exact .head .advance (ih (r.apply c).1)

section
variable {rest : Watch} {c : Change} {r : Replica}

lemma step_of_change (h : w.poll s = .change c rest) :
    Step s ⟨r, .following w⟩ ⟨(r.apply c).1, .following rest⟩ := by
  have hadvance := Step.advance (s := s) (m := ⟨r, .following w⟩)
  simpa only [Reflector.advance, h] using hadvance

lemma step_of_waiting (h : w.poll s = .waiting rest) : Step s ⟨r, .following w⟩ ⟨r, .following rest⟩ := by
  have hadvance := Step.advance (s := s) (m := ⟨r, .following w⟩)
  simpa only [Reflector.advance, h] using hadvance

lemma step_of_ended (h : w.poll s = .ended) : Step s ⟨r, .following w⟩ ⟨r, .listing⟩ := by
  have hadvance := Step.advance (s := s) (m := ⟨r, .following w⟩)
  simpa only [Reflector.advance, h] using hadvance

end

/-- The rest of the journal is taken in change by change, until nothing is ready. -/
lemma steps_journal (hc : Chronicle (s :: past)) (hstart : start ≤ position)
    (hkeep : ¬position + Watch.capacity < s.version) (r : Replica) :
    ReflTransGen (Step s) ⟨r, .following ⟨start, [], position⟩⟩
      ⟨(r.applyAll ((journal (s :: past)).drop position)).1, .following ⟨start, [], s.version⟩⟩ := by
  generalize hrest : (journal (s :: past)).drop position = rest
  induction rest generalizing r position with
  | nil =>
    have hnews : Watch.news ⟨start, [], position⟩ s = [] := by
      rw [Watch.news_eq hc hkeep, max_eq_left hstart, hrest]
    exact .single (step_of_waiting (Watch.poll_of_nil rfl hkeep hnews))
  | cons c rest ih =>
    have hnews : Watch.news ⟨start, [], position⟩ s = c :: rest := by
      rw [Watch.news_eq hc hkeep, max_eq_left hstart, hrest]
    have hnext : c.version = position + 1 := by
      have hget : (journal (s :: past))[position]? = some c := by
        rw [← List.head?_drop, hrest]
        rfl
      rw [hc.journal_follow.1.version_getElem? hget, Nat.zero_add]
    have hlater : (journal (s :: past)).drop (position + 1) = rest := by
      rw [← List.tail_drop, hrest, List.tail_cons]
    have hpoll := Watch.poll_of_cons rfl hkeep hnews
    rw [hnext] at hpoll
    have hstep : Step s ⟨r, .following ⟨start, [], position⟩⟩
        ⟨(r.apply c).1, .following ⟨start, [], position + 1⟩⟩ := step_of_change hpoll
    exact .head hstep (ih (hstart.trans (Nat.le_succ position)) (by omega) (r.apply c).1 hlater)

/-- A watch that fell too far behind gives its backlog and ends. -/
lemma steps_cut (hcut : w.position + Watch.capacity < s.version) (r : Replica) :
    ReflTransGen (Step s) ⟨r, .following w⟩ ⟨(r.applyAll w.backlog).1, .listing⟩ := by
  obtain ⟨start, backlog, position⟩ := w
  have hended : Step s ⟨(r.applyAll backlog).1, .following ⟨start, [], position⟩⟩
      ⟨(r.applyAll backlog).1, .listing⟩ := step_of_ended (Watch.poll_of_cut rfl hcut)
  exact .tail (steps_backlog s start position r backlog) hended

lemma steps_keep (hc : Chronicle (s :: past)) (hstart : w.start ≤ w.position)
    (hkeep : ¬w.position + Watch.capacity < s.version) (r : Replica) :
    ReflTransGen (Step s) ⟨r, .following w⟩
      ⟨(r.applyAll (w.backlog ++ w.news s)).1, .following { w with backlog := [], position := s.version }⟩ := by
  obtain ⟨start, backlog, position⟩ := w
  rw [Watch.news_eq hc hkeep, max_eq_left hstart, Replica.applyAll_append]
  exact .trans (steps_backlog s start position r backlog) (steps_journal hc hstart hkeep _)

end Reflector

namespace Feed
variable {past : List Store} {s : Store} {f : Feed Watch}

/-- The reflector that a feed is. One that is stopped or pauses has to list before it goes on. -/
def reflector (f : Feed Watch) : Reflector where
  replica := f.replica
  stage := match f.state with
    | .following w => .following w
    | _ => .listing

theorem follow_steps (now : Nat) (hc : Chronicle (s :: past)) (h : f.reflector.Faithful (s :: past)) :
    ReflTransGen (Reflector.Step s) f.reflector (f.follow Store.source now s).2.reflector := by
  obtain ⟨r, synced, state, ticker⟩ := f
  cases state with
  | following w =>
    have htracks : w.Tracks (journal (s :: past)) r.lastSeen := h.fits
    by_cases hcut : w.position + Watch.capacity < s.version
    · have hfeed : (follow Store.source now ⟨r, synced, .following w, ticker⟩ s).2.reflector =
          ⟨(r.applyAll w.backlog).1, .listing⟩ := by
        simp only [follow, Store.source, Watch.drain_of_cut hcut, reflector]
      rw [hfeed]
      exact Reflector.steps_cut hcut r
    · have hfeed : (follow Store.source now ⟨r, synced, .following w, ticker⟩ s).2.reflector =
          ⟨(r.applyAll (w.backlog ++ w.news s)).1, .following { w with backlog := [], position := s.version }⟩ := by
        simp only [follow, Store.source, Watch.drain_of_keep hcut, reflector]
      rw [hfeed]
      exact Reflector.steps_keep hc htracks.start_le hcut r
  | _ => exact .refl

lemma wake_reflector (now : Nat) (f : Feed Watch) : (f.wake now).reflector = f.reflector := by
  obtain ⟨r, synced, state, ticker⟩ := f
  unfold wake
  cases state with
  | pausing resume =>
    dsimp only
    split_ifs
    · rfl
    · rfl
  | _ => rfl

lemma tick_reflector (now : Nat) (f : Feed Watch) : (f.tick now).2.reflector = f.reflector := by
  obtain ⟨r, synced, state, ticker⟩ := f
  cases state <;> cases ticker <;> rfl

lemma list_steps (now : Nat) (f : Feed Watch) (s : Store) :
    ReflTransGen (Reflector.Step s) f.reflector (f.list Store.source now s).2.1.reflector := by
  obtain ⟨r, synced, state, ticker⟩ := f
  cases state with
  | listing =>
    have hlisted : ReflTransGen (Reflector.Step s) ⟨r, .listing⟩
        ⟨(r.replace s.objects.toList s.version).1, .opening s.version⟩ := .tail (.single .advance) .advance
    have hopened := Reflector.Step.advance (s := s)
      (m := ⟨(r.replace s.objects.toList s.version).1, .opening s.version⟩)
    cases hopen : Watch.openAt s s.version with
    | ok w =>
      have hfeed : (list Store.source now ⟨r, synced, .listing, ticker⟩ s).2.1.reflector =
          ⟨(r.replace s.objects.toList s.version).1, .following w⟩ := by
        simp only [list, Store.source, hopen, reflector]
      rw [hfeed]
      simp only [Reflector.advance, hopen] at hopened
      exact hlisted.tail hopened
    | error e =>
      have hfeed : (list Store.source now ⟨r, synced, .listing, ticker⟩ s).2.1.reflector =
          ⟨(r.replace s.objects.toList s.version).1, .listing⟩ := by
        simp only [list, Store.source, hopen, reflector]
      rw [hfeed]
      simp only [Reflector.advance, hopen] at hopened
      exact hlisted.tail hopened
  | _ => exact .refl

lemma list_store (now : Nat) (f : Feed Watch) (s : Store) : (f.list Store.source now s).2.2 = s := by
  obtain ⟨r, synced, state, ticker⟩ := f
  cases state with
  | listing => cases hopen : Watch.openAt s s.version <;> simp only [list, Store.source, hopen]
  | _ => rfl

/-- All that a feed does at one time is steps of a reflector. -/
theorem settle_steps (now : Nat) (hc : Chronicle (s :: past)) (h : f.reflector.Faithful (s :: past)) :
    ReflTransGen (Reflector.Step s) f.reflector (f.settle Store.source now s).2.1.reflector := by
  have hlist := list_steps now (f.wake now) s
  rw [wake_reflector] at hlist
  have hfollow := follow_steps now hc (h.steps hc hlist)
  have hsettle : (f.settle Store.source now s).2.1 =
      ((((f.wake now).list Store.source now s).2.1.follow Store.source now
        ((f.wake now).list Store.source now s).2.2).2.tick now).2 := rfl
  rw [hsettle, tick_reflector, list_store]
  exact hlist.trans hfollow

end Feed

/-! ## Runs -/

/-- A feed over a store, with the stores before, the last one first. -/
structure Feeding where
  store : Store
  past : List Store
  feed : Feed Watch

namespace Feeding

def new : Feeding := ⟨.empty, [], .new⟩

/-- Any request is served, or the feed is started, stopped or lets everything happen that is due. -/
inductive Step (c : Feeding) : Feeding → Prop
  | request (r : Request) :
      Step c ⟨c.store.serve r, (c.store.stages r).tail ++ c.store :: c.past, c.feed⟩
  | start (now : Nat) (period : Option Nat) : Step c { c with feed := c.feed.start now period }
  | stop : Step c { c with feed := c.feed.stop }
  | settle (now : Nat) : Step c { c with feed := (c.feed.settle Store.source now c.store).2.1 }

def mirroring (c : Feeding) : Mirroring := ⟨c.store, c.past, c.feed.reflector⟩

variable {c d : Feeding}

/-- Whatever is done to a feed, its reflector could have done. -/
theorem mirroring_reachable (h : Relation.ReflTransGen Step new c) : c.mirroring.Reachable := by
  induction h with
  | refl => exact .refl
  | @tail c d _ hstep ih =>
    cases hstep with
    | request r => exact ih.serve r
    | start now period => exact Relation.ReflTransGen.tail ih (.reflect .relist)
    | stop => exact Relation.ReflTransGen.tail ih (.reflect .relist)
    | settle now =>
      obtain ⟨hc, hfaithful⟩ := Mirroring.faithful_of_reachable ih
      have hsteps := c.feed.settle_steps now hc hfaithful
      refine Relation.ReflTransGen.trans ih
        (hsteps.lift (fun m => (⟨c.store, c.past, m⟩ : Mirroring)) ?_)
      intro m n hmn
      exact .reflect hmn

/-- The replica of a feed holds what the store held at the version last seen. -/
theorem fed_replica_past (h : Relation.ReflTransGen Step new c) :
    ∃ t ∈ c.store :: c.past, t.version = c.feed.replica.lastSeen ∧ t.objects = c.feed.replica.objects :=
  (Mirroring.faithful_of_reachable (mirroring_reachable h)).2.past

end Feeding

end Timetable
