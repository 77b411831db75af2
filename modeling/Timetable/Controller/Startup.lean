import Timetable.Replica.Feed

/-!
# Starting a controller

A controller starts its feed and waits for the first listing before it starts workers. It gives up when
the listing does not come in time, and then it stops the feed.
-/

namespace Timetable

inductive ControllerError
  | syncTimeout
  deriving DecidableEq

def ControllerError.message : ControllerError → String
  | .syncTimeout => "timed out waiting for cache to sync"

/-- How a controller ended and when, with what its feed did. -/
structure Startup (σ ω : Type) where
  result : Except ControllerError Unit
  finish : Nat
  events : List (Nat × Event)
  feed : Feed ω
  source : σ

namespace Startup
variable {σ ω : Type}

/-- Runs a started feed from time 0 to the end. -/
def feedUntil (src : Source σ ω) (limit : Nat) (f : Feed ω) (s : σ) : List (Nat × Event) × Feed ω × σ :=
  f.runUntil src limit (limit + 1) 0 s

/-- Runs a controller from time 0. It is told to stop at `limit`, which is no error. -/
def run (src : Source σ ω) (limit timeout : Nat) (f : Feed ω) (s : σ) : Startup σ ω :=
  let (events, early, source) := feedUntil src (min timeout limit) f s
  if early.synced || limit ≤ timeout then
    let (events, feed, source) := feedUntil src limit f s
    ⟨.ok (), limit, events, feed, source⟩
  else ⟨.error .syncTimeout, timeout, events, early.stop, source⟩

end Startup

end Timetable
