/-!
# Header fields

A header field is a name and a value. A name is a token, compared without regard to letter case and
sent in lower case; a value may hold any bytes but controls, of which only the tab is allowed. So no
value can end its line and begin another field.
-/

namespace FleetConsole.Http

def isTokenChar (c : Char) : Bool :=
  c.isAlphanum || "!#$%&'*+-.^_\x60|~".toList.contains c

def longestName : Nat := 65535

/-- The field name that a text is, in lower case. -/
def fieldName? (s : String) : Option String :=
  if !s.isEmpty && s.toList.all isTokenChar && s.length ≤ longestName then
    some (String.ofList (s.toList.map Char.toLower))
  else none

def isValueChar (c : Char) : Bool :=
  c = '\t' || (0x20 ≤ c.toNat && c ≠ '\x7f')

def isFieldValue (s : String) : Bool := s.toList.all isValueChar

/-- The text of a value that has nothing but visible characters, blanks and tabs. -/
def visibleText? (value : List UInt8) : Option (List Char) :=
  if value.all fun b => b = 0x09 || (0x20 ≤ b && b < 0x7F) then
    some (value.map fun b => Char.ofNat b.toNat)
  else none

end FleetConsole.Http
