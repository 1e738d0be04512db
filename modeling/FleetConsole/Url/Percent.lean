import FleetConsole.Text.Digits

/-!
# Percent encoding

A character that may not stand in a part of an address is written as its UTF-8 bytes, each as a
percent sign and two hexadecimal digits. Which characters those are differs from part to part, so
each part has a set.
-/

namespace FleetConsole.Url

open Text

def percentByte (b : UInt8) : List Char :=
  '%' :: lowDigits upperHexChar 16 2 b.toNat

def utf8Bytes (c : Char) : List UInt8 :=
  (String.singleton c).toUTF8.toList

def percentEncode (isEncoded : Char → Bool) (cs : List Char) : List Char :=
  cs.flatMap fun c => if isEncoded c then (utf8Bytes c).flatMap percentByte else [c]

/-- Bytes in which percent signs with two digits stand for bytes. -/
def percentDecode (bytes : List UInt8) : List UInt8 :=
  match bytes with
  | b :: c :: d :: rest =>
    if b = 0x25 then
      match hexDigit? (Char.ofNat c.toNat), hexDigit? (Char.ofNat d.toNat) with
      | some high, some low => UInt8.ofNat (16 * high + low) :: percentDecode rest
      | _, _ => b :: percentDecode (c :: d :: rest)
    else b :: percentDecode (c :: d :: rest)
  | b :: rest => b :: percentDecode rest
  | [] => []

/-! ### The sets -/

/-- Controls and everything beyond ASCII. -/
def isControl (c : Char) : Bool := c.toNat < 0x20 || 0x7E < c.toNat

def inFragment (c : Char) : Bool :=
  isControl c || c = ' ' || c = '"' || c = '<' || c = '>' || c = '\x60'

def inPath (c : Char) : Bool :=
  inFragment c || c = '#' || c = '?' || c = '\x7b' || c = '\x7d'

def inUserInfo (c : Char) : Bool :=
  inPath c || c = '/' || c = ':' || c = ';' || c = '=' || c = '@' || c = '[' || c = '\\' || c = ']'
    || c = '^' || c = '|'

def inQuery (c : Char) : Bool :=
  isControl c || c = ' ' || c = '"' || c = '#' || c = '<' || c = '>'

/-- What is encoded in the query of an address with a host. -/
def inSpecialQuery (c : Char) : Bool := inQuery c || c = '\''

end FleetConsole.Url
