import Timetable.Controller.Notice

/-!
# Clients of the store

A client is a program whose steps are calls to the store, readings of the clock and notices. It can be
run to its end at once (`Client.run`) or call by call (`Client.step`), so that other clients come in
between.
-/

namespace Timetable

inductive Client (α : Type)
  | done (a : α)
  | listItems (next : List WorkItem → Client α)
  | writeScheduleStatus (s : Schedule) (next : Except StoreError Schedule → Client α)
  | createItem (w : WorkItem) (next : Except StoreError WorkItem → Client α)
  | writeItemStatus (w : WorkItem) (next : Except StoreError WorkItem → Client α)
  | deleteItem (key : Key) (next : Except StoreError Unit → Client α)
  | readClock (next : Instant → Client α)
  | note (r : Record) (next : Client α)

/-- What clients work on: the store, the clock, and the notices made so far, the last one first. -/
structure Site where
  store : Store
  clock : Instant
  records : List Record

namespace Client

def andThen {α β : Type} (c : Client α) (f : α → Client β) : Client β :=
  match c with
  | done a => f a
  | listItems next => listItems fun r => (next r).andThen f
  | writeScheduleStatus s next => writeScheduleStatus s fun r => (next r).andThen f
  | createItem w next => createItem w fun r => (next r).andThen f
  | writeItemStatus w next => writeItemStatus w fun r => (next r).andThen f
  | deleteItem key next => deleteItem key fun r => (next r).andThen f
  | readClock next => readClock fun r => (next r).andThen f
  | note r next => note r (next.andThen f)

instance : Monad Client where
  pure := done
  bind := andThen

/-- Makes the next call. A created work item gets the stamp. -/
def step {α : Type} (stamp : Stamp) (site : Site) : Client α → Client α × Site
  | done a => (done a, site)
  | listItems next => (next site.store.objects.items, site)
  | writeScheduleStatus x next =>
    let (r, store) := site.store.updateScheduleStatus x
    (next r, { site with store })
  | createItem w next =>
    let (r, store) := site.store.createWorkItem stamp w
    (next r, { site with store })
  | writeItemStatus w next =>
    let (r, store) := site.store.updateWorkItemStatus w
    (next r, { site with store })
  | deleteItem key next =>
    let (r, store) := site.store.deleteWorkItem key
    (next r, { site with store })
  | readClock next => (next site.clock, site)
  | note r next => (next, { site with records := r :: site.records })

/-- Runs to the end without interruption. The `n`-th call that creates a work item, counted from
`minted`, gets the UID `uids n`; a creation that fails uses none up. -/
def run {α : Type} (uids : Nat → Uid) (site : Site) (minted : Nat) : Client α → α × Site × Nat
  | done a => (a, site, minted)
  | listItems next => (next site.store.objects.items).run uids site minted
  | writeScheduleStatus x next =>
    let (r, store) := site.store.updateScheduleStatus x
    (next r).run uids { site with store } minted
  | createItem w next =>
    let (r, store) := site.store.createWorkItem ⟨uids minted, site.clock⟩ w
    (next r).run uids { site with store } (if r.isOk then minted + 1 else minted)
  | writeItemStatus w next =>
    let (r, store) := site.store.updateWorkItemStatus w
    (next r).run uids { site with store } minted
  | deleteItem key next =>
    let (r, store) := site.store.deleteWorkItem key
    (next r).run uids { site with store } minted
  | readClock next => (next site.clock).run uids site minted
  | note r next => next.run uids { site with records := r :: site.records } minted

end Client

end Timetable
