/-!
# Digits

Numbers as the console reads and writes them in text: ASCII digits only, most significant first. A
reader says whether the text is a number at all; the bounds of a field belong to the field.
-/

namespace FleetConsole.Text

/-- The value of a decimal digit, or 0 for any other character. -/
def digitValue (c : Char) : Nat :=
  if c.isDigit then c.toNat - '0'.toNat else 0

/-- The value of a hexadecimal digit in either letter case. -/
def hexDigit? (c : Char) : Option Nat :=
  if c.isDigit then some (c.toNat - '0'.toNat)
  else if 'a' ≤ c ∧ c ≤ 'f' then some (c.toNat - 'a'.toNat + 10)
  else if 'A' ≤ c ∧ c ≤ 'F' then some (c.toNat - 'A'.toNat + 10)
  else none

/-- The number that digits spell in a base, continuing from a number already read. -/
def foldDigits (base : Nat) (start : Nat) (cs : List Char) : Nat :=
  cs.foldl (fun n c => base * n + (hexDigit? c).getD 0) start

def decimalValue (cs : List Char) : Nat :=
  foldDigits 10 0 cs

/-- A nonempty run of decimal digits as a number. -/
def nat? (cs : List Char) : Option Nat :=
  if !cs.isEmpty && cs.all Char.isDigit then some (decimalValue cs) else none

/-- A nonempty run of digits of a base of at most sixteen as a number. -/
def natInBase? (base : Nat) (cs : List Char) : Option Nat :=
  if !cs.isEmpty && cs.all (fun c => (hexDigit? c).any (· < base)) then
    some (foldDigits base 0 cs)
  else none

/-- A run of decimal digits behind at most one sign. -/
def int? : List Char → Option Int
  | '-' :: cs => (nat? cs).map fun n => -(n : Int)
  | '+' :: cs => (nat? cs).map fun n => (n : Int)
  | cs => (nat? cs).map fun n => (n : Int)

def hexChar (n : Nat) : Char :=
  if n < 10 then Char.ofNat ('0'.toNat + n) else Char.ofNat ('a'.toNat + (n - 10))

def upperHexChar (n : Nat) : Char :=
  if n < 10 then Char.ofNat ('0'.toNat + n) else Char.ofNat ('A'.toNat + (n - 10))

/-- The lowest digits of a number in a base of at most sixteen, most significant first. -/
def lowDigits (digit : Nat → Char) (base : Nat) : Nat → Nat → List Char
  | 0, _ => []
  | width + 1, n => lowDigits digit base width (n / base) ++ [digit (n % base)]

def digits (n : Nat) : List Char :=
  Nat.toDigits 10 n

def natText (n : Nat) : String :=
  String.ofList (digits n)

def intText (n : Int) : String :=
  if n < 0 then "-" ++ natText n.natAbs else natText n.natAbs

/-- The decimal digits of a number behind as many zeros as a width asks for. -/
def padZeros (width n : Nat) : List Char :=
  List.replicate (width - (digits n).length) '0' ++ digits n

end FleetConsole.Text
