import FleetConsole.Decimal.Read
import FleetConsole.Text.Digits
import FleetConsole.Time.Calendar
import FleetConsole.Toml.Value

/-!
# The words of a TOML text

Keys, texts, numbers and points in time, each read from the front of the characters. Line ends are
single line feeds here. A control character other than the tab may stand nowhere.
-/

namespace FleetConsole.Toml

open Text

/-- A scanner takes characters and gives a value and the characters after it. -/
abbrev Scanner (α : Type) := List Char → Option (α × List Char)

/-- Characters in which a line end is a single line feed. -/
def unifyLineEnds : List Char → List Char
  | '\r' :: '\n' :: cs => '\n' :: unifyLineEnds cs
  | c :: cs => c :: unifyLineEnds cs
  | [] => []

/-! ### Between words -/

/-- The blanks within a line. -/
def isBlank (c : Char) : Bool := c = ' ' || c = '\t'

/-- The characters that may stand in a comment. -/
def isVisible (c : Char) : Bool :=
  c = '\t' || (0x20 ≤ c.toNat && c.toNat ≤ 0x7E) || 0x80 ≤ c.toNat

def skipBlanks (cs : List Char) : List Char := cs.dropWhile isBlank

/-- Characters without the blanks, line ends and comments in front. -/
def skipLines (inComment : Bool) : List Char → List Char
  | [] => []
  | c :: cs =>
    if c = '\n' then skipLines false cs
    else if inComment then if isVisible c then skipLines true cs else c :: cs
    else if c = '#' then skipLines true cs
    else if isBlank c then skipLines false cs
    else c :: cs

/-- The next line, if nothing but blanks and a comment is left on this one. -/
def nextLine? (cs : List Char) : Option (List Char) :=
  let rest :=
    match skipBlanks cs with
    | '#' :: rest => rest.dropWhile isVisible
    | rest => rest
  match rest with
  | [] => some []
  | '\n' :: rest => some rest
  | _ => none

/-! ### Texts -/

/-- The character with a number, unless it is only half of one. -/
def scalar? (ds : List Char) : Option Char := do
  let n ← natInBase? 16 ds
  if (0xD800 ≤ n ∧ n ≤ 0xDFFF) ∨ 0x10FFFF < n then none else some (Char.ofNat n)

/-- A character named by a letter after a backslash. -/
def named? (c : Char) : Option Char :=
  if c = 'b' then some '\x08'
  else if c = 't' then some '\t'
  else if c = 'n' then some '\n'
  else if c = 'f' then some '\x0c'
  else if c = 'r' then some '\r'
  else if c = '"' ∨ c = '\\' then some c
  else none

/-- The rest of a text between double quotes; `kept` holds what was read in reverse. -/
def basicRest (kept : List Char) : Scanner String
  | '\\' :: 'u' :: a :: b :: c :: d :: cs => do basicRest ((← scalar? [a, b, c, d]) :: kept) cs
  | '\\' :: 'U' :: a :: b :: c :: d :: e :: f :: g :: h :: cs => do
    basicRest ((← scalar? [a, b, c, d, e, f, g, h]) :: kept) cs
  | '\\' :: c :: cs => do basicRest ((← named? c) :: kept) cs
  | '"' :: cs => some (String.ofList kept.reverse, cs)
  | c :: cs => if isVisible c && c ≠ '\\' then basicRest (c :: kept) cs else none
  | [] => none

/-- The rest of a text between single quotes. -/
def literalRest (kept : List Char) : Scanner String
  | '\'' :: cs => some (String.ofList kept.reverse, cs)
  | c :: cs => if isVisible c then literalRest (c :: kept) cs else none
  | [] => none

/-- Where the reader of a long text is: in the text, between a backslash and the line end it
announces, or in the blanks and line ends after that. -/
inductive Place where
  | inText
  | beforeLineEnd
  | afterLineEnd
  deriving DecidableEq

/-- The rest of a text between three double quotes. Of more than three quotes at its end, up to two
belong to the text. -/
def longBasicRest (place : Place) (kept : List Char) : Scanner String
  | [] => none
  | c :: cs =>
    if place = .beforeLineEnd then
      if isBlank c then longBasicRest .beforeLineEnd kept cs
      else if c = '\n' then longBasicRest .afterLineEnd kept cs
      else none
    else if place = .afterLineEnd ∧ (isBlank c ∨ c = '\n') then longBasicRest .afterLineEnd kept cs
    else
      match c, cs with
      | '"', '"' :: '"' :: '"' :: '"' :: cs => some (String.ofList ('"' :: '"' :: kept).reverse, cs)
      | '"', '"' :: '"' :: '"' :: cs => some (String.ofList ('"' :: kept).reverse, cs)
      | '"', '"' :: '"' :: cs => some (String.ofList kept.reverse, cs)
      | '\\', 'u' :: a :: b :: c :: d :: cs => do
        longBasicRest .inText ((← scalar? [a, b, c, d]) :: kept) cs
      | '\\', 'U' :: a :: b :: c :: d :: e :: f :: g :: h :: cs => do
        longBasicRest .inText ((← scalar? [a, b, c, d, e, f, g, h]) :: kept) cs
      | '\\', d :: cs =>
        if isBlank d then longBasicRest .beforeLineEnd kept cs
        else if d = '\n' then longBasicRest .afterLineEnd kept cs
        else do longBasicRest .inText ((← named? d) :: kept) cs
      | c, cs =>
        if (isVisible c && c ≠ '\\') || c = '\n' then longBasicRest .inText (c :: kept) cs else none

/-- The rest of a text between three single quotes. -/
def longLiteralRest (kept : List Char) : Scanner String
  | '\'' :: '\'' :: '\'' :: '\'' :: '\'' :: cs =>
    some (String.ofList ('\'' :: '\'' :: kept).reverse, cs)
  | '\'' :: '\'' :: '\'' :: '\'' :: cs => some (String.ofList ('\'' :: kept).reverse, cs)
  | '\'' :: '\'' :: '\'' :: cs => some (String.ofList kept.reverse, cs)
  | c :: cs => if isVisible c || c = '\n' then longLiteralRest (c :: kept) cs else none
  | [] => none

/-- Characters without a line end in front. -/
def dropLineEnd : List Char → List Char
  | '\n' :: cs => cs
  | cs => cs

/-- A text in one of its four forms. -/
def text? : Scanner String
  | '"' :: '"' :: '"' :: cs => longBasicRest .inText [] (dropLineEnd cs)
  | '"' :: cs => basicRest [] cs
  | '\'' :: '\'' :: '\'' :: cs => longLiteralRest [] (dropLineEnd cs)
  | '\'' :: cs => literalRest [] cs
  | _ => none

/-! ### Keys -/

def isKeyChar (c : Char) : Bool := c.isAlphanum || c = '_' || c = '-'

/-- One part of a key. -/
def simpleKey? : Scanner String
  | '"' :: cs => basicRest [] cs
  | '\'' :: cs => literalRest [] cs
  | cs =>
    let name := cs.takeWhile isKeyChar
    if name.isEmpty then none else some (String.ofList name, cs.dropWhile isKeyChar)

/-- How many parts a key can have at most. -/
def longestKey : Nat := 79

/-- The parts of a key, with points between them, at most as many as `fuel`. -/
def keyParts? : Nat → Scanner (List String)
  | 0, _ => none
  | fuel + 1, cs => do
    let (part, cs) ← simpleKey? (skipBlanks cs)
    match skipBlanks cs with
    | '.' :: cs =>
      let (parts, cs) ← keyParts? fuel cs
      return (part :: parts, cs)
    | cs => return ([part], cs)

def key? : Scanner (List String) := keyParts? longestKey

/-! ### Numbers -/

/-- The digits that follow a digit; an underscore may stand between two of them. -/
def digitsAfter (isDigit : Char → Bool) : List Char → List Char × List Char
  | '_' :: c :: cs =>
    if isDigit c then
      let (ds, rest) := digitsAfter isDigit cs
      (c :: ds, rest)
    else ([], '_' :: c :: cs)
  | c :: cs =>
    if isDigit c then
      let (ds, rest) := digitsAfter isDigit cs
      (c :: ds, rest)
    else ([], c :: cs)
  | [] => ([], [])

/-- At least one digit. -/
def digits? (isDigit : Char → Bool) : Scanner (List Char)
  | c :: cs =>
    if isDigit c then
      let (ds, rest) := digitsAfter isDigit cs
      some (c :: ds, rest)
    else none
  | [] => none

/-- The digits of a whole number, which begin with a zero only if it is the only one. -/
def wholeDigits? : Scanner (List Char)
  | '0' :: cs => some (['0'], cs)
  | cs => digits? Char.isDigit cs

def integer? (n : Int) : Option Value :=
  if -(Nat.pow 2 63 : Int) ≤ n ∧ n < Nat.pow 2 63 then some (.integer n) else none

/-- An exponent without its mark. -/
def exponent? (cs : List Char) : Option (Int × List Char) := do
  match cs with
  | '-' :: cs =>
    let (ds, rest) ← digits? Char.isDigit cs
    return (-(decimalValue ds : Int), rest)
  | '+' :: cs =>
    let (ds, rest) ← digits? Char.isDigit cs
    return ((decimalValue ds : Int), rest)
  | cs =>
    let (ds, rest) ← digits? Char.isDigit cs
    return ((decimalValue ds : Int), rest)

/-- The number that digits and an exponent spell. One that is too large is refused if it is
positive, and infinite otherwise. -/
def real? (negative : Bool) (ds : List Char) (exponent : Int) : Option Value :=
  match (Decimal.Numeral.mk negative (decimalValue ds) exponent).toDouble? with
  | some x => some (.real (.finite x))
  | none => if negative then some (.real (.infinite true)) else none

/-- A decimal number after its sign. -/
def decimal? (negative : Bool) (cs : List Char) : Option (Value × List Char) := do
  let (whole, rest) ← wholeDigits? cs
  let marked (c : Char) : Bool := c = 'e' || c = 'E'
  match rest with
  | '.' :: cs =>
    let (fraction, rest) ← digits? Char.isDigit cs
    let (exponent, rest) ←
      match rest with
      | c :: cs => if marked c then exponent? cs else some (0, c :: cs)
      | [] => some (0, [])
    return (← real? negative (whole ++ fraction) (exponent - fraction.length), rest)
  | c :: cs =>
    if marked c then
      let (exponent, rest) ← exponent? cs
      return (← real? negative whole exponent, rest)
    else
      let n : Int := decimalValue whole
      return (← integer? (if negative then -n else n), c :: cs)
  | [] =>
    let n : Int := decimalValue whole
    return (← integer? (if negative then -n else n), [])

/-- A whole number in a base that is announced. -/
def inBase? (base : Nat) (cs : List Char) : Option (Value × List Char) := do
  let (ds, rest) ← digits? (fun c => (hexDigit? c).any (· < base)) cs
  return (← integer? (foldDigits base 0 ds), rest)

/-- What may follow the sign of a number, or its absence. -/
def afterSign? (negative : Bool) : Scanner Value
  | 'i' :: 'n' :: 'f' :: cs => some (.real (.infinite negative), cs)
  | 'n' :: 'a' :: 'n' :: cs => some (.real .notANumber, cs)
  | cs => decimal? negative cs

/-- A number. A base is announced without a sign before it. -/
def number? : Scanner Value
  | '+' :: cs => afterSign? false cs
  | '-' :: cs => afterSign? true cs
  | '0' :: 'x' :: cs => inBase? 16 cs
  | '0' :: 'o' :: cs => inBase? 8 cs
  | '0' :: 'b' :: cs => inBase? 2 cs
  | cs => afterSign? false cs

/-! ### Points in time -/

/-- A number of exactly `width` digits. -/
def fixed? (width : Nat) (cs : List Char) : Option (Nat × List Char) :=
  let ds := cs.take width
  if ds.length = width ∧ ds.all Char.isDigit then some (decimalValue ds, cs.drop width) else none

def mark? (mark : Char) : Scanner Unit
  | c :: cs => if c = mark then some ((), cs) else none
  | [] => none

def date? (cs : List Char) : Option (List Char × List Char) := do
  let (year, cs) ← fixed? 4 cs
  let (_, cs) ← mark? '-' cs
  let (month, cs) ← fixed? 2 cs
  let (_, cs) ← mark? '-' cs
  let (day, cs) ← fixed? 2 cs
  if Date.isValid ⟨year, month, day⟩ then
    some (padZeros 4 year ++ '-' :: padZeros 2 month ++ '-' :: padZeros 2 day, cs)
  else none

/-- The fraction of a second, of which nine digits are kept and zeros at the end are not. -/
def fraction (cs : List Char) : List Char × List Char :=
  match cs with
  | '.' :: rest =>
    let ds := rest.takeWhile Char.isDigit
    if ds.isEmpty then ([], cs)
    else
      let kept := ((ds.take 9).reverse.dropWhile (· = '0')).reverse
      (if kept.isEmpty then [] else '.' :: kept, rest.drop ds.length)
  | _ => ([], cs)

def time? (cs : List Char) : Option (List Char × List Char) := do
  let (hour, cs) ← fixed? 2 cs
  let (_, cs) ← mark? ':' cs
  let (minute, cs) ← fixed? 2 cs
  let (_, cs) ← mark? ':' cs
  let (second, cs) ← fixed? 2 cs
  if hour < 24 ∧ minute < 60 ∧ second ≤ 60 then
    let (part, cs) := fraction cs
    some (padZeros 2 hour ++ ':' :: padZeros 2 minute ++ ':' :: padZeros 2 second ++ part, cs)
  else none

/-- The distance from universal time and its text, or nothing. -/
def offset? (cs : List Char) : Option (List Char × List Char) := do
  match cs with
  | [] => return ([], [])
  | c :: rest =>
    if c = 'Z' ∨ c = 'z' then return (['Z'], rest)
    else if c = '+' ∨ c = '-' then
      let (hour, rest) ← fixed? 2 rest
      let (_, rest) ← mark? ':' rest
      let (minute, rest) ← fixed? 2 rest
      if hour < 24 ∧ minute < 60 then
        let sign := if hour = 0 ∧ minute = 0 then '+' else c
        return (sign :: padZeros 2 hour ++ ':' :: padZeros 2 minute, rest)
      else none
    else return ([], cs)

/-- A date, a time of day, or both with or without a distance from universal time. -/
def dateTime? (cs : List Char) : Option (Value × List Char) := do
  match date? cs with
  | some (day, rest) =>
    let both : Option (List Char × List Char) := do
      match rest with
      | [] => none
      | c :: rest =>
        if c = 'T' ∨ c = 't' ∨ c = ' ' then
          let (time, rest) ← time? rest
          let (offset, rest) ← offset? rest
          return (day ++ 'T' :: time ++ offset, rest)
        else none
    let (chars, rest) := both.getD (day, rest)
    return (.dateTime (String.ofList chars), rest)
  | none =>
    let (time, rest) ← time? cs
    return (.dateTime (String.ofList time), rest)

end FleetConsole.Toml
