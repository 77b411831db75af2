import Timetable.Replica.Basic
import Timetable.Store.Watch

/-!
# Feeding a replica

A feed lists a store, then follows a watch from the version of the listing. After a failure, or when the
watch ends, it pauses and lists again. A ticker makes the replica redeliver its objects from time to time.
Times are nanoseconds.
-/

namespace Timetable

/-- Where listings and watches come from. The state `σ` changes with every call, `ω` is an open watch. -/
structure Source (σ ω : Type) where
  list : σ → Except StoreError (List Object × Nat) × σ
  watch : σ → Nat → Except StoreError ω × σ
  /-- The changes that are ready, and the watch unless it has ended. -/
  drain : σ → ω → List Change × Option ω

/-- The listings and watches of a store. -/
def Store.source : Source Store Watch where
  list s := (.ok (s.objects.toList, s.version), s)
  watch s start := (Watch.openAt s start, s)
  drain s w := w.drain s

/-- A timer that goes off again and again, with the time at which it is due. -/
structure Ticker where
  period : Nat
  next : Nat
  deriving DecidableEq

namespace Ticker

/-- How often the timer went off and nobody looked. -/
def due (t : Ticker) (now : Nat) : Nat :=
  if t.next ≤ now then (now - t.next) / t.period + 1 else 0

def renew (t : Ticker) (now : Nat) : Ticker :=
  { t with next := t.next + t.period * t.due now }

end Ticker

inductive FeedState (ω : Type)
  | stopped
  | listing
  | following (w : ω)
  | pausing (resume : Nat)
  deriving DecidableEq

structure Feed (ω : Type) where
  replica : Replica
  /-- A first listing was taken in. -/
  synced : Bool
  state : FeedState ω
  ticker : Option Ticker

namespace Feed
variable {σ ω : Type}

def new : Feed ω := ⟨.empty, false, .stopped, none⟩

def pause : Nat := giga

def isRunning (f : Feed ω) : Bool :=
  match f.state with
  | .stopped => false
  | _ => true

/-- Starts to list; objects are redelivered once every period. -/
def start (f : Feed ω) (now : Nat) (period : Option Nat) : Feed ω :=
  { f with
    state := .listing
    ticker := (period.filter (0 < ·)).map fun p => ⟨p, now + p⟩ }

def stop (f : Feed ω) : Feed ω :=
  { f with state := .stopped }

def wake (now : Nat) (f : Feed ω) : Feed ω :=
  match f.state with
  | .pausing resume => if resume ≤ now then { f with state := .listing } else f
  | _ => f

/-- Lists and opens a watch, if it is time to. -/
def list (src : Source σ ω) (now : Nat) (f : Feed ω) (s : σ) : List Event × Feed ω × σ :=
  match f.state with
  | .listing =>
    match src.list s with
    | (.error _, s) => ([], { f with state := .pausing (now + pause) }, s)
    | (.ok (objects, version), s) =>
      let (replica, events) := f.replica.replace objects version
      let f := { f with replica, synced := true }
      match src.watch s version with
      | (.error _, s) => (events, { f with state := .pausing (now + pause) }, s)
      | (.ok w, s) => (events, { f with state := .following w }, s)
  | _ => ([], f, s)

/-- Takes in the changes that are ready. -/
def follow (src : Source σ ω) (now : Nat) (f : Feed ω) (s : σ) : List Event × Feed ω :=
  match f.state with
  | .following w =>
    let (changes, rest) := src.drain s w
    let (replica, events) := f.replica.applyAll changes
    (events, { f with
      replica
      state := match rest with
        | some w => .following w
        | none => .pausing (now + pause) })
  | _ => ([], f)

/-- Redelivers every object as often as the ticker went off. -/
def tick (now : Nat) (f : Feed ω) : List Event × Feed ω :=
  match f.state, f.ticker with
  | .following _, some t =>
    (f.replica.redeliver.flatMap (List.replicate (t.due now)), { f with ticker := some (t.renew now) })
  | _, _ => ([], f)

/-- Does all that can be done at one time. -/
def settle (src : Source σ ω) (now : Nat) (f : Feed ω) (s : σ) : List Event × Feed ω × σ :=
  let (listed, f, s) := (f.wake now).list src now s
  let (followed, f) := f.follow src now s
  let (ticked, f) := f.tick now
  (listed ++ followed ++ ticked, f, s)

/-- When the feed goes on by itself. -/
def nextTimer (f : Feed ω) : Option Nat :=
  match f.state with
  | .pausing resume => some resume
  | .following _ => f.ticker.map (·.next)
  | _ => none

/-- Runs a feed alone from `now` until a limit, timer by timer, and tells the events with their times. Each
timer is later than the one before, so more steps than the time has units suffice. -/
def runUntil (src : Source σ ω) (limit : Nat) : (steps : Nat) → (now : Nat) → Feed ω → σ →
    List (Nat × Event) × Feed ω × σ
  | 0, _, f, s => ([], f, s)
  | steps + 1, now, f, s =>
    let (events, f, s) := f.settle src now s
    let timed := events.map (now, ·)
    match f.nextTimer with
    | none => (timed, f, s)
    | some t =>
      if limit < t then (timed, f, s)
      else
        let (more, f, s) := runUntil src limit steps t f s
        (timed ++ more, f, s)

end Feed

end Timetable
