import Timetable.Text.Numeral

/-!
# Binary floating-point numbers

A number of 53 significant bits, `± mantissa · 2 ^ exponent`. `ofRatio?` rounds a fraction to the nearest one,
a half going to the even neighbour; `shortest` finds the fewest digits that read back as the same number and
of these the nearest.
-/

namespace Timetable

structure Binary64 where
  negative : Bool
  mantissa : Nat
  exponent : Int
  deriving DecidableEq

namespace Binary64

def bits : Nat := 53

def lowestExponent : Int := -1074

def highestExponent : Int := 971

/-- The fraction `n / d · base ^ e` as numerator and denominator. -/
def scale (base n d : Nat) (e : Int) : Nat × Nat :=
  if 0 ≤ e then (n * Nat.pow base e.toNat, d) else (n, d * Nat.pow base (-e).toNat)

/-- The quotient rounded to the nearest integer, a half to the even one. -/
def roundHalfEven (n d : Nat) : Nat :=
  let q := n / d
  let twice := 2 * (n % d)
  if d < twice ∨ (twice = d ∧ q % 2 = 1) then q + 1 else q

def zero (negative : Bool) : Binary64 := ⟨negative, 0, 0⟩

/-- The number nearest to `n / d`; none if that is too large. -/
def ofRatio? (negative : Bool) (n d : Nat) : Option Binary64 :=
  if n = 0 then some (zero negative)
  else
    let guess : Int := (Nat.log2 n : Int) - Nat.log2 d - bits
    let fits (q : Int) : Bool :=
      let (a, b) := scale 2 n d (-q)
      a < Nat.pow 2 bits * b
    let q := max lowestExponent
      (if fits guess then guess else if fits (guess + 1) then guess + 1 else guess + 2)
    let (a, b) := scale 2 n d (-q)
    let m := roundHalfEven a b
    let (m, q) := if m = Nat.pow 2 bits then (m / 2, q + 1) else (m, q)
    if m = 0 then some (zero negative)
    else if highestExponent < q then none
    else some ⟨negative, m, q⟩

/-- The number nearest to `digits · 10 ^ e`; none if that is too large. -/
def ofDecimal? (negative : Bool) (digits : Nat) (e : Int) : Option Binary64 :=
  let size : Int := (toString digits).length + e
  if digits = 0 ∨ size < -330 then some (zero negative)
  else if 330 < size then none
  else
    let (n, d) := scale 10 digits 1 e
    ofRatio? negative n d

def ratio (x : Binary64) : Nat × Nat :=
  scale 2 x.mantissa 1 x.exponent

/-- The product, rounded, with the sign of `x`. -/
def mul? (x y : Binary64) : Option Binary64 :=
  let (a, b) := x.ratio
  let (c, d) := y.ratio
  ofRatio? x.negative (a * c) (b * d)

/-- The quotient, rounded, with the sign of `x`. -/
def div? (x y : Binary64) : Option Binary64 :=
  let (a, b) := x.ratio
  let (c, d) := y.ratio
  ofRatio? x.negative (a * d) (b * c)

/-- The greatest power of ten in range. -/
def greatestPower : Nat := 308

/-- Multiplies by a power of ten that is itself rounded. Powers below the range divide in several steps. -/
def scaleByTen? : (steps : Nat) → (x : Binary64) → (e : Int) → Option Binary64
  | 0, x, _ => some x
  | steps + 1, x, e =>
    if x.mantissa = 0 then some x
    else if greatestPower < e then none
    else if 0 ≤ e then (ofDecimal? false 1 e).bind x.mul?
    else if -greatestPower ≤ e then (ofDecimal? false 1 (-e)).bind x.div?
    else do
      let y ← (ofDecimal? false 1 greatestPower).bind x.div?
      scaleByTen? steps y (e + greatestPower)

/-- Whether `digits · 10 ^ p` is nearer to the number than to any of its neighbours. -/
def readsBack (x : Binary64) (digits : Nat) (p : Int) : Bool :=
  ofDecimal? x.negative digits p == some x

def distance (x : Binary64) (digits : Nat) (p : Int) : Nat × Nat :=
  let (a, b) := x.ratio
  let (c, d) := scale 10 digits 1 p
  (a * d - c * b + (c * b - a * d), b * d)

/-- The nearest decimal with unit `10 ^ p` that reads back, if one of the two next to the number does. -/
def onGrid? (x : Binary64) (p : Int) : Option (Nat × Int) :=
  let (a, b) := x.ratio
  let (n, d) := scale 10 a b (-p)
  let lo := n / d
  match x.readsBack lo p, x.readsBack (lo + 1) p with
  | false, false => none
  | true, false => some (lo, p)
  | false, true => some (lo + 1, p)
  | true, true =>
    let (u, v) := x.distance lo p
    let (s, t) := x.distance (lo + 1) p
    some (if u * t < s * v ∨ (u * t = s * v ∧ lo % 2 = 0) then lo else lo + 1, p)

def searchGrid (x : Binary64) : (count : Nat) → Int → Option (Nat × Int)
  | 0, _ => none
  | count + 1, p => (x.onGrid? p).orElse fun _ => x.searchGrid count (p - 1)

/-- The fewest digits that read back, with the power of ten of the last one. -/
def shortest (x : Binary64) : Nat × Int :=
  if x.mantissa = 0 then (0, 0)
  else
    let (a, b) := x.ratio
    let top : Int := if b ≤ a then (toString (a / b)).length else 1 - (toString (b / a)).length
    (x.searchGrid 20 top).getD (0, 0)

/-- Positional notation reaches from `10 ^ -5` up to 16 digits before the point. -/
def positionalEnd : Int := 16

def positionalStart : Int := -5

/-- The shortest text: positional with a point near one, else with an exponent that always has a sign. -/
def render (x : Binary64) : String :=
  let (n, p) := x.shortest
  let digits := (toString n).toList
  let point := digits.length + p
  let text (cs : List Char) : String := (if x.negative then "-" else "") ++ String.ofList cs
  let zeros (k : Int) : List Char := List.replicate k.toNat '0'
  if x.mantissa = 0 then text ['0', '.', '0']
  else if 0 ≤ p ∧ point ≤ positionalEnd then text (digits ++ zeros p ++ ['.', '0'])
  else if 0 < point ∧ point ≤ positionalEnd then
    text (digits.take point.toNat ++ ['.'] ++ digits.drop point.toNat)
  else if positionalStart < point ∧ point ≤ 0 then text (['0', '.'] ++ zeros (-point) ++ digits)
  else
    let mantissa := if digits.length = 1 then digits else digits.take 1 ++ ['.'] ++ digits.drop 1
    text (mantissa ++ ['e'] ++ (if 0 < point then ['+'] else [])) ++ toString (point - 1)

end Binary64

end Timetable
