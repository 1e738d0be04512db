import FleetConsole.Text.Blank
import FleetConsole.Text.Utf8
import FleetConsole.Url.Percent

/-!
# Form encoding

Names and values as a query carries them: pairs joined by ampersands, a name and its value by an
equals sign, blanks as plus signs, and everything but letters, digits and four marks
percent-encoded. Whoever receives a query decodes it in the opposite order, so no name or value can
be taken for more than one.
-/

namespace FleetConsole.Url.Form

open Text

def isPlain (c : Char) : Bool :=
  c.isAlphanum || c = '*' || c = '-' || c = '.' || c = '_'

def encodeChar (c : Char) : List Char :=
  if isPlain c then [c] else if c = ' ' then ['+'] else (utf8Bytes c).flatMap percentByte

def encodeText (s : String) : List Char := s.toList.flatMap encodeChar

def encodePair (pair : String × String) : List Char :=
  encodeText pair.1 ++ '=' :: encodeText pair.2

def encode : List (String × String) → List Char
  | [] => []
  | [pair] => encodePair pair
  | pair :: pairs => encodePair pair ++ '&' :: encode pairs

/-- The text that the characters of a name or a value stand for. -/
def decodeText (cs : List Char) : String :=
  lenientText (percentDecode ((cs.map fun c => if c = '+' then ' ' else c).flatMap utf8Bytes))

/-- The name in front of the first equals sign, and the value after it. -/
def decodePair (cs : List Char) : String × String :=
  (decodeText (cs.takeWhile (· ≠ '=')), decodeText (cs.dropWhile (· ≠ '=')).tail)

def decode (cs : List Char) : List (String × String) :=
  ((splitChars (· = '&') cs).filter fun pair => !pair.isEmpty).map decodePair

end FleetConsole.Url.Form
