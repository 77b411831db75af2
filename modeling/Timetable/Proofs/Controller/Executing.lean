import Timetable.Controller.Executor
import Timetable.Proofs.Controller.Activity

/-!
# Rounds of the executor

A round lists the work items and writes the next status of those that move on. Between the listing and a write
anything may happen; a write that comes too late is refused. So no round makes a work item active.
-/

namespace Timetable

namespace Executor

/-- How a status moves on at `now`: a pending work item starts, a running one succeeds at its time or later. One
that was never started counts as started now. -/
inductive Advances (runtime : Int) (now : Instant) (before : WorkItemStatus) : WorkItemStatus → Prop
  | start : before.phase = .pending →
      Advances runtime now before { before with phase := .running, started := some now }
  | finish {finish : Instant} : before.phase = .running →
      (before.started.getD now).add? runtime = some finish → finish ≤ now →
      Advances runtime now before { before with phase := .succeeded, completed := some now }

/-- A request writes the next status of a work item that was stored. -/
def Moves (stores : List Store) : Request → Prop
  | .updateWorkItemStatus next => ∃ t ∈ stores, ∃ v, .workItem v ∈ t.objects ∧
      ∃ runtime now, advance runtime now v = some next
  | _ => False

/-- A round has just begun, or writes next statuses of what it has listed. -/
def Sound (stores : List Store) (c : Client (Except StoreError Nat)) : Prop :=
  (∃ runtime, c = round runtime) ∨ c.Every (Moves stores)

variable {stores old past : List Store} {runtime : Int} {now : Instant} {v next : WorkItem}
  {ws : List WorkItem} {c : Client (Except StoreError Nat)} {site : Site} {stamp : Stamp} {r : Request}

theorem advance_eq_some_iff : advance runtime now v = some next ↔
    next = { v with status := next.status } ∧ Advances runtime now v.status next.status := by
  obtain ⟨metadata, spec, phase, started, completed⟩ := v
  constructor
  · intro h
    unfold advance at h
    cases phase with
    | pending =>
      obtain rfl := Option.some.inj h
      exact ⟨rfl, .start rfl⟩
    | running =>
      dsimp only at h
      split at h
      · rename_i finish hfinish
        split_ifs at h with hearly
        obtain rfl := Option.some.inj h
        exact ⟨rfl, .finish rfl hfinish (not_lt.1 hearly)⟩
      · simp at h
    | succeeded => simp at h
    | failed => simp at h
  · rintro ⟨hnext, hmoves⟩
    rw [hnext]
    generalize next.status = status at hmoves
    cases hmoves with
    | start hphase =>
      obtain rfl : phase = .pending := hphase
      rfl
    | finish hphase hfinish hle =>
      obtain rfl : phase = .running := hphase
      dsimp only at hfinish
      simp only [advance, hfinish, if_neg (not_lt.2 hle)]

lemma Advances.active {before after : WorkItemStatus} (h : Advances runtime now before after) :
    before.phase.isTerminal = false := by
  cases h with
  | start hphase => rw [hphase]; rfl
  | finish hphase => rw [hphase]; rfl

/-- A work item that moves on was active. -/
lemma advance_spec (h : advance runtime now v = some next) : next.metadata = v.metadata ∧ v.Active := by
  obtain ⟨hnext, hmoves⟩ := advance_eq_some_iff.1 h
  rw [hnext]
  exact ⟨rfl, WorkItem.active_iff.2 hmoves.active⟩

/-- What is left of a round is its count, or it goes on with the first work item that moves on: a write that lands
is counted, one that fails is passed over or ends the round. -/
lemma moveAll_cases (runtime : Int) (now : Instant) (moved : Nat) (ws : List WorkItem) :
    moveAll runtime now moved ws = .done (.ok moved) ∨
      ∃ v ∈ ws, ∃ next rest answer, advance runtime now v = some next ∧ rest ⊆ ws ∧
        moveAll runtime now moved ws = .writeItemStatus next answer ∧
        (∀ w, answer (.ok w) = moveAll runtime now (moved + 1) rest) ∧
        ∀ e, answer (.error e) = moveAll runtime now moved rest ∨ answer (.error e) = .done (.error e) := by
  induction ws with
  | nil => exact Or.inl rfl
  | cons v ws ih =>
    have hsub : ws ⊆ v :: ws := List.subset_cons_self v ws
    cases hadvance : advance runtime now v with
    | none =>
      have hskip : moveAll runtime now moved (v :: ws) = moveAll runtime now moved ws := by
        rw [moveAll, hadvance]
      rw [hskip]
      refine ih.imp_right ?_
      rintro ⟨u, hu, next, rest, answer, hnext, hrest, hmove⟩
      exact ⟨u, hsub hu, next, rest, answer, hnext, List.Subset.trans hrest hsub, hmove⟩
    | some next =>
      right
      refine ⟨v, List.mem_cons_self, next, ws, _, hadvance, hsub, by rw [moveAll, hadvance],
        fun _ => rfl, fun e => ?_⟩
      cases e with
      | conflict => exact Or.inl rfl
      | notFound => exact Or.inl rfl
      | _ => exact Or.inr rfl

lemma Moves.mono (h : Moves old r) (hsub : old ⊆ stores) : Moves stores r := by
  cases r with
  | updateWorkItemStatus next =>
    obtain ⟨t, ht, hmoved⟩ := h
    exact ⟨t, hsub ht, hmoved⟩
  | _ => exact h

lemma Sound.mono (h : Sound old c) (hsub : old ⊆ stores) : Sound stores c := by
  obtain hround | hevery := h
  · exact Or.inl hround
  · exact Or.inr (hevery.mono fun r hr => hr.mono hsub)

lemma moveAll_every (hws : ∀ w ∈ ws, ∃ t ∈ stores, .workItem w ∈ t.objects) (moved : Nat) :
    (moveAll runtime now moved ws).Every (Moves stores) := by
  induction ws generalizing moved with
  | nil => trivial
  | cons w ws ih =>
    have hrest : ∀ moved, (moveAll runtime now moved ws).Every (Moves stores) :=
      ih fun v hv => hws v (List.mem_cons_of_mem w hv)
    unfold moveAll
    split
    · exact hrest moved
    · rename_i next hnext
      obtain ⟨t, ht, hw⟩ := hws w List.mem_cons_self
      refine ⟨⟨t, ht, w, hw, runtime, now, hnext⟩, fun answer => ?_⟩
      dsimp only
      split
      · exact hrest (moved + 1)
      · exact hrest moved
      · exact hrest moved
      · trivial

/-- What is left of a round lists the store as it is, or goes on with what was listed. -/
theorem Sound.step (h : Sound (site.store :: past) c) (hc : Chronicle (site.store :: past)) :
    Sound (site.store :: past) (c.step stamp site).1 := by
  right
  obtain ⟨runtime, rfl⟩ | hevery := h
  · intro now
    apply moveAll_every
    intro w hw
    have hs : site.store ∈ site.store :: past := List.mem_cons_self
    refine ⟨site.store, hs, ?_⟩
    rw [Listing.mem_workItem]
    exact (hc.keyed hs).mem_items.1 hw
  · exact hevery.step

/-- No call of a round makes a work item active. -/
theorem Sound.wanes (h : Sound (site.store :: past) c) (hc : Chronicle (site.store :: past)) (owner : Meta) :
    Store.Wanes owner site.store (c.step stamp site).2.store := by
  obtain ⟨runtime, rfl⟩ | hevery := h
  · exact (Store.SameData.refl _).wanes
  · rw [Client.step_store]
    cases hr : c.request? stamp with
    | none => exact (Store.SameData.refl _).wanes
    | some r =>
      have hmoves := hevery.request hr
      cases r with
      | updateWorkItemStatus next =>
        obtain ⟨t, ht, v, hv, runtime, now, hnext⟩ := hmoves
        obtain ⟨hmetadata, hactive⟩ := advance_spec hnext
        exact Store.updateWorkItemStatus_wanes hc List.mem_cons_self ht hv hmetadata fun _ => hactive
      | _ => exact hmoves.elim

end Executor

end Timetable
