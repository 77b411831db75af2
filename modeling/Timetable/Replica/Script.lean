import Timetable.Replica.Feed

/-!
# Scripted sources

A script plays listings and watches round by round. A round whose listing fails is over with it; any other
round is over with the watch that follows the listing.
-/

namespace Timetable

structure Script.Round where
  listing : Except StoreError (List Object × Nat)
  watch : Except StoreError (List Change)
  /-- The watch ends after its changes. -/
  ends : Bool

/-- The rounds to come, and the versions from which watches were asked for, last first. -/
structure Script where
  rounds : List Script.Round
  watched : List Nat

/-- An open watch of a script: the changes not delivered, and whether it ends after them. -/
structure Script.Tape where
  changes : List Change
  ends : Bool

namespace Script

def list (s : Script) : Except StoreError (List Object × Nat) × Script :=
  match s.rounds with
  | [] => (.error (.unavailable "script exhausted"), s)
  | r :: rest =>
    match r.listing with
    | .ok listing => (.ok listing, s)
    | .error e => (.error e, { s with rounds := rest })

def watch (s : Script) (start : Nat) : Except StoreError Tape × Script :=
  let s := { s with watched := start :: s.watched }
  match s.rounds with
  | [] => (.error (.unavailable "script exhausted"), s)
  | r :: rest => (r.watch.map (⟨·, r.ends⟩), { s with rounds := rest })

def source : Source Script Tape where
  list := list
  watch := watch
  drain _ t := (t.changes, if t.ends then none else some { t with changes := [] })

end Script

end Timetable
