import Timetable.Json.Basic
import Timetable.Text.Split

/-!
# Reading JSON

`Json.parse?` reads one value between blanks. A scanner gives its value with the unread rest. Escapes have to
form characters, numbers have no leading zeros and must not exceed the floating-point range, and values nest
at most 127 deep.
-/

namespace Timetable.Json
open Text

def skipBlanks (cs : List Char) : List Char :=
  cs.dropWhile fun c => c == ' ' || c == '\n' || c == '\t' || c == '\r'

def hexValue? (c : Char) : Option Nat :=
  if c.isDigit then some (digitValue c)
  else if 'a' ≤ c ∧ c ≤ 'f' then some (c.toNat - 'a'.toNat + 10)
  else if 'A' ≤ c ∧ c ≤ 'F' then some (c.toNat - 'A'.toNat + 10)
  else none

/-- The number of four hexadecimal digits. -/
def hex4? (a b c d : Char) : Option Nat := do
  some (4096 * (← hexValue? a) + 256 * (← hexValue? b) + 16 * (← hexValue? c) + (← hexValue? d))

def isHighSurrogate (n : Nat) : Bool :=
  0xD800 ≤ n && n < 0xDC00

def isLowSurrogate (n : Nat) : Bool :=
  0xDC00 ≤ n && n < 0xE000

/-- What a backslash makes of the character after it. -/
def shortEscape? : Char → Option Char
  | '"' => some '"'
  | '\\' => some '\\'
  | '/' => some '/'
  | 'b' => some '\x08'
  | 'f' => some '\x0c'
  | 'n' => some '\n'
  | 'r' => some '\r'
  | 't' => some '\t'
  | _ => none

/-- The rest of a string after its opening quote; `done` holds the characters read, last first. -/
def scanString (done : List Char) : List Char → Option (String × List Char)
  | [] => none
  | '"' :: rest => some (String.ofList done.reverse, rest)
  | '\\' :: 'u' :: a :: b :: c :: d :: rest =>
    match hex4? a b c d with
    | none => none
    | some n =>
      if isLowSurrogate n then none
      else if isHighSurrogate n then
        match rest with
        | '\\' :: 'u' :: e :: f :: g :: h :: rest =>
          match hex4? e f g h with
          | some m =>
            if isLowSurrogate m then
              scanString (Char.ofNat (0x10000 + 1024 * (n - 0xD800) + (m - 0xDC00)) :: done) rest
            else none
          | none => none
        | _ => none
      else scanString (Char.ofNat n :: done) rest
  | '\\' :: c :: rest =>
    match shortEscape? c with
    | some e => scanString (e :: done) rest
    | none => none
  | c :: rest => if c.toNat < 0x20 then none else scanString (c :: done) rest

def digitsValue (cs : List Char) : Nat :=
  cs.foldl (fun n c => 10 * n + digitValue c) 0

def scanDigits (cs : List Char) : Option (List Char × List Char) :=
  match cs.takeWhile Char.isDigit with
  | [] => none
  | digits => some (digits, cs.dropWhile Char.isDigit)

/-- The digits before the point: a zero stands alone. -/
def scanWhole : List Char → Option (List Char × List Char)
  | '0' :: rest => if rest.head?.any Char.isDigit then none else some (['0'], rest)
  | cs => scanDigits cs

def scanFraction : List Char → Option (List Char × List Char)
  | '.' :: cs => scanDigits cs
  | cs => some ([], cs)

def scanExponent (cs : List Char) : Option (Option Int × List Char) :=
  match cs with
  | [] => some (none, [])
  | c :: rest =>
    if c != 'e' && c != 'E' then some (none, cs)
    else match rest with
      | '-' :: rest => (scanDigits rest).map fun (d, cs) => (some (-(digitsValue d : Int)), cs)
      | '+' :: rest => (scanDigits rest).map fun (d, cs) => (some (digitsValue d : Int), cs)
      | rest => (scanDigits rest).map fun (d, cs) => (some (digitsValue d : Int), cs)

/-- Appends digits to a number as long as it fits in 64 bits; the second part is the digits left over. -/
def gather : Nat → List Char → Nat × List Char
  | n, [] => (n, [])
  | n, c :: cs =>
    if 10 * n + digitValue c ≤ max64 then gather (10 * n + digitValue c) cs else (n, c :: cs)

/-- A floating-point number. The digits that fit in 64 bits are rounded and then scaled by a power of ten, which
rounds once more; of the digits left over, those before the point count as powers of ten. -/
def readFloat? (negative : Bool) (whole fraction : List Char) (exponent : Int) : Option Binary64 := do
  let (n, left) := gather 0 whole
  let (n, dropped) := gather n fraction
  let e := exponent + left.length - (fraction.length - dropped.length)
  (← Binary64.ofRatio? negative n 1).scaleByTen? (e.natAbs / Binary64.greatestPower + 1) e

def scanNumber (negative : Bool) (cs : List Char) : Option (Json × List Char) := do
  let (whole, cs) ← scanWhole cs
  let (fraction, cs) ← scanFraction cs
  let (exponent, cs) ← scanExponent cs
  let n : Int := digitsValue whole
  let signed := if negative then -n else n
  if fraction.isEmpty && exponent.isNone && fitsWord signed && !(negative && n == 0) then
    some (.int signed, cs)
  else
    let x ← readFloat? negative whole fraction (exponent.getD 0)
    some (.float x, cs)

def scanWord (word : String) (value : Json) (cs : List Char) : Option (Json × List Char) :=
  (after? word.toList cs).map (value, ·)

mutual

/-- A value; `depth` is how deep it may nest. -/
def scanValue : (fuel depth : Nat) → List Char → Option (Json × List Char)
  | 0, _, _ => none
  | fuel + 1, depth, cs =>
    match skipBlanks cs with
    | '"' :: rest => (scanString [] rest).map fun (s, cs) => (.str s, cs)
    | '[' :: rest =>
      if depth ≤ 1 then none
      else match skipBlanks rest with
        | ']' :: rest => some (.arr [], rest)
        | rest => (scanItems fuel (depth - 1) [] rest).map fun (items, cs) => (.arr items, cs)
    | '\x7b' :: rest =>
      if depth ≤ 1 then none
      else match skipBlanks rest with
        | '\x7d' :: rest => some (.obj [], rest)
        | rest => (scanMembers fuel (depth - 1) [] rest).map fun (ms, cs) => (ofMembers ms, cs)
    | '-' :: rest => scanNumber true rest
    | 'n' :: rest => scanWord "ull" .null rest
    | 't' :: rest => scanWord "rue" (.bool true) rest
    | 'f' :: rest => scanWord "alse" (.bool false) rest
    | rest => scanNumber false rest

/-- The items of an array up to its closing bracket; `done` holds those read, last first. -/
def scanItems : (fuel depth : Nat) → (done : List Json) → List Char → Option (List Json × List Char)
  | 0, _, _, _ => none
  | fuel + 1, depth, done, cs =>
    match scanValue fuel depth cs with
    | none => none
    | some (item, cs) =>
      match skipBlanks cs with
      | ',' :: rest => scanItems fuel depth (item :: done) rest
      | ']' :: rest => some ((item :: done).reverse, rest)
      | _ => none

/-- The members of an object up to its closing brace. -/
def scanMembers : (fuel depth : Nat) → (done : List (String × Json)) → List Char →
    Option (List (String × Json) × List Char)
  | 0, _, _, _ => none
  | fuel + 1, depth, done, cs =>
    match skipBlanks cs with
    | '"' :: rest =>
      match scanString [] rest with
      | none => none
      | some (name, cs) =>
        match skipBlanks cs with
        | ':' :: rest =>
          match scanValue fuel depth rest with
          | none => none
          | some (value, cs) =>
            match skipBlanks cs with
            | ',' :: rest => scanMembers fuel depth ((name, value) :: done) rest
            | '\x7d' :: rest => some (((name, value) :: done).reverse, rest)
            | _ => none
        | _ => none
    | _ => none

end

def depthLimit : Nat := 128

def parse? (text : String) : Option Json :=
  let cs := text.toList
  match scanValue (2 * cs.length + 2) depthLimit cs with
  | some (value, rest) => if (skipBlanks rest).isEmpty then some value else none
  | none => none

end Timetable.Json
