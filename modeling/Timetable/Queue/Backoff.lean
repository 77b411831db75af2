import Timetable.Calendar.Span
import Timetable.Text.Numeral

/-!
# Retry delays

The delay before a retry doubles with every failure of a key until it reaches a ceiling. Delays are
nanoseconds in a word of 64 bits; `Failures` counts the failures of each key since it was last forgotten.
-/

namespace Timetable

/-- The delay before the first retry and the longest delay, in nanoseconds. -/
structure BackoffPolicy where
  base : Nat
  max : Nat
  deriving DecidableEq

namespace BackoffPolicy

def standard : BackoffPolicy := ⟨5 * mega, 1000 * giga⟩

/-- Doublings beyond this one are not applied. -/
def doublings : Nat := 64

/-- The delay after `attempt` earlier failures. The product is taken in 128 bits; where it does not fit
the ceiling holds. -/
def delay (p : BackoffPolicy) (attempt : Nat) : Nat :=
  let product := p.base * Nat.pow 2 (min attempt doublings)
  let capped := if product < Nat.pow 2 128 then min product p.max else p.max
  min capped Text.max64

end BackoffPolicy

/-- The failures of each key since it was last forgotten. -/
structure Failures (κ : Type) where
  policy : BackoffPolicy
  counts : List (κ × Nat)

namespace Failures
variable {κ : Type} [DecidableEq κ]

def new (policy : BackoffPolicy) : Failures κ :=
  ⟨policy, []⟩

def count (f : Failures κ) (k : κ) : Nat :=
  (f.counts.lookup k).getD 0

def forget (f : Failures κ) (k : κ) : Failures κ :=
  { f with counts := f.counts.filter fun entry => entry.1 ≠ k }

/-- Counts one more failure of a key, up to the largest word of 32 bits, and says how long to wait. -/
def record (f : Failures κ) (k : κ) : Nat × Failures κ :=
  (f.policy.delay (f.count k),
    { f.forget k with counts := (k, min (f.count k + 1) Text.max32) :: (f.forget k).counts })

end Failures

end Timetable
