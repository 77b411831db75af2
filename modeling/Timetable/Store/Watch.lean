import Timetable.Store.Basic

/-!
# Watching a store

A watch delivers the changes after a version, first those that were there when it was opened and then
each one that the store makes. It ends when the reader has fallen too far behind.
-/

namespace Timetable

/-- An open watch: the undelivered changes from before it was opened, and the version of the last change
seen of those after. Changes up to `start` are not of interest. -/
structure Watch where
  start : Nat
  backlog : List Change
  position : Nat
  deriving DecidableEq

namespace Watch

/-- How many later changes may be undelivered before a watch is cut off. -/
def capacity : Nat := 1024

/-- Opens a watch after a version, unless the next change is no longer kept. -/
def openAt (s : Store) (start : Nat) : Except StoreError Watch :=
  let gone := match s.history.head? with
    | none => true
    | some oldest => start + 1 < oldest.version
  if start < s.version && gone then
    .error (.unavailable s!"watch from version {start} is no longer available")
  else .ok ⟨start, s.history.filter (start < ·.version), s.version⟩

/-- What a reader finds: a change, nothing yet, or the end. -/
inductive Poll
  | change (c : Change) (rest : Watch)
  | waiting (rest : Watch)
  | ended

/-- All that is ready now, and the watch after it unless it has ended. -/
def drain (w : Watch) (s : Store) : List Change × Option Watch :=
  if w.position + capacity < s.version then (w.backlog, none)
  else
    (w.backlog ++ s.history.filter fun c => w.position < c.version && w.start < c.version,
      some { w with backlog := [], position := s.version })

/-- The next change, if one is ready. -/
def poll (w : Watch) (s : Store) : Poll :=
  match w.backlog with
  | c :: rest => .change c { w with backlog := rest }
  | [] =>
    if w.position + capacity < s.version then .ended
    else match s.history.find? fun c => w.position < c.version && w.start < c.version with
      | some c => .change c { w with position := c.version }
      | none => .waiting { w with position := s.version }

end Watch

end Timetable
