import FleetConsole.Json.Value
import FleetConsole.Text.Digits

/-!
# Reading JSON numbers

An integer is read exactly as long as it stays below `2 ^ 64`. Every other number is read into an
integer of at most 64 bits and a decimal exponent, digits that no longer fit being dropped, and then
scaled by a power of ten that is itself rounded to the binary format. The two roundings make the
result differ from the nearest binary number in the last place now and then, which is part of the
format the console reads: `9007199254740993.0` becomes `9007199254740994.0`.
-/

namespace FleetConsole.Json

open FleetConsole.Text

/-- Why a JSON text is refused: it is not JSON, it ends too early, or it is JSON of another shape
than the one asked for. -/
inductive ReadError where
  | malformed
  | truncated
  | mismatch
  deriving DecidableEq, Repr, Inhabited

/-- A reader takes characters and gives a value and the characters after it. -/
abbrev Reader (α : Type) := List Char → Except ReadError (α × List Char)

namespace Number

/-- Digits appended to a number as long as it stays below `2 ^ 64`: the number, how many digits were
taken, and the characters after them. -/
def takeBounded (n : Nat) : List Char → Nat × Nat × List Char
  | [] => (n, 0, [])
  | c :: cs =>
    if c.isDigit ∧ 10 * n + digitValue c < Nat.pow 2 64 then
      let (value, count, rest) := takeBounded (10 * n + digitValue c) cs
      (value, count + 1, rest)
    else (n, 0, c :: cs)

/-- The largest power of ten that the format holds. -/
def greatestPower : Nat := 308

/-- A number divided by the largest power of ten until the exponent left over is in range. -/
def scaleDown (x : Double) (exponent : Nat) : Double × Nat :=
  if _h : exponent ≤ greatestPower then (x, exponent)
  else if x.isZero then (x, 0)
  else
    scaleDown ((x.divRounded? (Nat.pow 10 greatestPower)).getD (Double.zero false))
      (exponent - greatestPower)
termination_by exponent
decreasing_by simp only [greatestPower] at *; omega

/-- An integer of at most 64 bits times a power of ten; too large a number is malformed. -/
def scaled (negative : Bool) (significand : Nat) (exponent : Int) : Except ReadError Double :=
  let x := Double.ofNat false significand
  let unsigned : Option Double :=
    if 0 ≤ exponent then
      if exponent.toNat ≤ greatestPower then x.mulRounded? (Nat.pow 10 exponent.toNat)
      else if x.isZero then some x
      else none
    else
      let (y, rest) := scaleDown x (-exponent).toNat
      y.divRounded? (Nat.pow 10 rest)
  match unsigned with
  | some y => .ok { y with negative := negative }
  | none => .error .malformed

def exponentPart (negative : Bool) (significand : Nat) (start : Int) (cs : List Char) :
    Except ReadError (Double × List Char) :=
  let (down, cs) :=
    match cs with
    | '+' :: rest => (false, rest)
    | '-' :: rest => (true, rest)
    | rest => (false, rest)
  match cs with
  | [] => .error .truncated
  | c :: _ =>
    if c.isDigit then
      let value := decimalValue (cs.takeWhile Char.isDigit)
      let rest := cs.dropWhile Char.isDigit
      if Nat.pow 2 31 ≤ value then
        if significand ≠ 0 ∧ !down then .error .malformed
        else .ok (Double.zero negative, rest)
      else do
        let x ← scaled negative significand (if down then start - value else start + value)
        return (x, rest)
    else .error .malformed

/-- What may follow the digits of a number that is not an integer. -/
def finish (negative : Bool) (significand : Nat) (exponent : Int) (cs : List Char) :
    Except ReadError (Double × List Char) :=
  match cs with
  | 'e' :: rest => exponentPart negative significand exponent rest
  | 'E' :: rest => exponentPart negative significand exponent rest
  | rest => do
    let x ← scaled negative significand exponent
    return (x, rest)

/-- The digits after the point, and the number they end. -/
def fractionPart (negative : Bool) (significand : Nat) (start : Int) (cs : List Char) :
    Except ReadError (Double × List Char) :=
  let (value, count, rest) := takeBounded significand cs
  match rest with
  | [] => if count = 0 then .error .truncated else finish negative value (start - count) rest
  | c :: _ =>
    if c.isDigit then finish negative value (start - count) (rest.dropWhile Char.isDigit)
    else if count = 0 then .error .malformed
    else finish negative value (start - count) rest

/-- An integer with its sign. Below the least 64-bit integer, and for a zero with a sign, it is a
binary number. -/
def ofInteger (negative : Bool) (n : Nat) : Number :=
  if !negative then .int n
  else if n = 0 ∨ Nat.pow 2 63 < n then .float (Double.ofNat true n)
  else .int (-n)

def afterSign (negative : Bool) : Reader Number
  | [] => .error .truncated
  | first :: rest =>
    if first = '0' ∧ (rest.head?.any Char.isDigit) then .error .malformed
    else if first.isDigit then
      let (value, _, after) := takeBounded 0 (first :: rest)
      match after with
      | '.' :: after => (fractionPart negative value 0 after).map fun r => (.float r.1, r.2)
      | 'e' :: after => (exponentPart negative value 0 after).map fun r => (.float r.1, r.2)
      | 'E' :: after => (exponentPart negative value 0 after).map fun r => (.float r.1, r.2)
      | [] => .ok (ofInteger negative value, [])
      | c :: after =>
        if c.isDigit then
          let skipped := (c :: after).takeWhile Char.isDigit
          match (c :: after).dropWhile Char.isDigit with
          | '.' :: after =>
            (fractionPart negative value skipped.length after).map fun r => (.float r.1, r.2)
          | after => (finish negative value skipped.length after).map fun r => (.float r.1, r.2)
        else .ok (ofInteger negative value, c :: after)
    else .error .malformed

def read : Reader Number
  | '-' :: cs => afterSign true cs
  | cs => afterSign false cs

end Number

end FleetConsole.Json
