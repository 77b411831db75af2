import Timetable.Identity.Name
import Timetable.Text.Split

/-!
# Unique identifiers

A UID is a number of 128 bits, written `uid_` and 26 digits of Crockford's base 32. Reading takes either
case and drops the two bits above 128 that the first digit can carry.
-/

namespace Timetable

def uidCount : Nat := 340282366920938463463374607431768211456

structure Uid where
  number : Fin uidCount
  deriving DecidableEq

namespace Uid

instance : Ord Uid := ⟨compareOn Uid.number⟩

instance : Std.TransOrd Uid := inferInstanceAs (Std.TransCmp (compareOn Uid.number))

instance : Std.LawfulEqOrd Uid where
  eq_of_compare {a b} h := by
    have : a.number = b.number := Std.LawfulEqOrd.compare_eq_iff_eq.1 h
    cases a; cases b; simp_all

def ofNat (n : Nat) : Uid :=
  ⟨n % uidCount, Nat.mod_lt n (by decide)⟩

instance : Inhabited Uid := ⟨ofNat 0⟩

def tag : String := "uid"

/-- The digits of base 32, without I, L, O and U. -/
def alphabet : List Char := "0123456789ABCDEFGHJKMNPQRSTVWXYZ".toList

def digitCount : Nat := 26

/-- The 26 digits of the number. -/
def ulid (u : Uid) : String :=
  String.ofList <| (List.range digitCount).reverse.map fun i =>
    alphabet.getD (u.number.val / Nat.pow 32 i % 32) '0'

def render (u : Uid) : String :=
  tag ++ "_" ++ u.ulid

instance : ToString Uid := ⟨render⟩

/-- The value of a digit of base 32, in either case. -/
def digitOf? (c : Char) : Option Nat :=
  alphabet.idxOf? c.toUpper

/-- Reads the 26 digits; the length is in bytes. -/
def parseUlid (cs : List Char) : Except UlidFault Uid :=
  if (String.ofList cs).utf8ByteSize != digitCount then .error .length
  else match cs.mapM digitOf? with
    | none => .error .character
    | some digits => .ok (ofNat (digits.foldl (fun n d => 32 * n + d) 0))

def parse (s : String) : Except IdentityError Uid :=
  if s.toList.isEmpty then .error .empty
  else match Text.splitFirst (· == '_') s.toList with
    | none => .error (.missingSeparator '_')
    | some (found, digits) =>
      if String.ofList found = tag then (parseUlid digits).mapError .badUlid
      else .error (.wrongTag tag (String.ofList found))

end Uid

end Timetable
