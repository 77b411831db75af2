import Std.Data.ExtTreeMap
import Timetable.Identity.Name
import Timetable.Text.Split

/-!
# Object keys

A key is a namespace and a name, written with a slash between them. Keys are ordered by namespace and
then by name, and `KeyMap` is a finite map in that order.
-/

namespace Timetable

structure Key where
  space : String
  name : String
  deriving DecidableEq

namespace Key

instance : Ord Key := ⟨compareLex (compareOn Key.space) (compareOn Key.name)⟩

theorem compare_def (a b : Key) :
    compare a b = (compare a.space b.space).then (compare a.name b.name) := rfl

instance : Std.TransOrd Key :=
  inferInstanceAs (Std.TransCmp (compareLex (compareOn Key.space) (compareOn Key.name)))

instance : Std.LawfulEqOrd Key where
  eq_of_compare {a b} h := by
    rw [compare_def, Ordering.then_eq_eq, Std.LawfulEqOrd.compare_eq_iff_eq,
      Std.LawfulEqOrd.compare_eq_iff_eq] at h
    cases a; cases b; simp_all

def render (k : Key) : String :=
  k.space ++ "/" ++ k.name

instance : ToString Key := ⟨render⟩

/-- A key of two valid names; a fault of the namespace is reported first. -/
def of? (space name : String) : Except IdentityError Key := do
  Name.validate space
  Name.validate name
  .ok ⟨space, name⟩

def parse (s : String) : Except IdentityError Key :=
  if s.toList.isEmpty then .error .empty
  else match Text.splitFirst (· == '/') s.toList with
    | none => .error (.missingSeparator '/')
    | some (space, name) =>
      if name.contains '/' then .error (.extraSeparator s)
      else of? (String.ofList space) (String.ofList name)

end Key

/-- Finite maps from keys, in key order. -/
abbrev KeyMap (α : Type) := Std.ExtTreeMap Key α

end Timetable
