/-!
# Names

Namespaces and object names are lowercase ASCII letters, digits, `-` and `.`, at most 253 bytes, with a
letter or digit at both ends. The causes for which a name, key or UID is refused are gathered in
`IdentityError`.
-/

namespace Timetable

inductive NameFault
  | tooLong
  | badCharacter
  | badEnd
  deriving DecidableEq

def NameFault.message : NameFault → String
  | .tooLong => "longer than 253 characters"
  | .badCharacter => "only lowercase alphanumerics, '-' and '.' are allowed"
  | .badEnd => "must start and end with an alphanumeric character"

inductive UlidFault
  | length
  | character
  deriving DecidableEq

def UlidFault.message : UlidFault → String
  | .length => "invalid length"
  | .character => "invalid character"

inductive IdentityError
  | empty
  | wrongTag (expected actual : String)
  | missingSeparator (separator : Char)
  | badUlid (fault : UlidFault)
  | badName (name : String) (fault : NameFault)
  | extraSeparator (key : String)
  deriving DecidableEq

def IdentityError.message : IdentityError → String
  | .empty => "ID cannot be empty"
  | .wrongTag expected actual => s!"invalid ID prefix: expected '{expected}', got '{actual}'"
  | .missingSeparator c => s!"missing '{c}' separator"
  | .badUlid fault => s!"invalid ULID: {fault.message}"
  | .badName name fault => s!"invalid name '{name}': {fault.message}"
  | .extraSeparator key => s!"invalid key format: unexpected extra '/' in key '{key}'"

namespace Name

def maxLength : Nat := 253

def isAlnum (c : Char) : Bool :=
  c.isLower || c.isDigit

def isAllowed (c : Char) : Bool :=
  isAlnum c || c == '-' || c == '.'

/-- Accepts a name; of several faults the length is reported before the characters, and these before
the ends. -/
def validate (name : String) : Except IdentityError Unit :=
  let cs := name.toList
  if cs.isEmpty then .error .empty
  else if maxLength < name.utf8ByteSize then .error (.badName name .tooLong)
  else if !cs.all isAllowed then .error (.badName name .badCharacter)
  else if cs.head?.any isAlnum && cs.getLast?.any isAlnum then .ok ()
  else .error (.badName name .badEnd)

end Name

end Timetable
