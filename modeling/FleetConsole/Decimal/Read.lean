import FleetConsole.Decimal.Double
import FleetConsole.Text.Digits

/-!
# Decimal numerals

A numeral is a sign, digits with at most one point among them, and an exponent. Its value is rounded
to the nearest binary number once.
-/

namespace FleetConsole.Decimal

open Text

structure Numeral where
  negative : Bool
  significand : Nat
  exponent : Int
  deriving DecidableEq, Repr, Inhabited

namespace Numeral

/-- Above this place of the leading digit every number is too large. -/
def greatestPlace : Int := 309

/-- Below this place of the leading digit every number is rounded to zero. -/
def leastPlace : Int := -400

/-- The nearest binary number, or `none` if the numeral is above all of them. -/
def toDouble? (x : Numeral) : Option Double :=
  if x.significand = 0 then some (Double.zero x.negative)
  else
    let place := x.exponent + ((digits x.significand).length : Int) - 1
    if greatestPlace < place then none
    else if place < leastPlace then some (Double.zero x.negative)
    else if 0 ≤ x.exponent then
      Double.ofRatio? x.negative (x.significand * Nat.pow 10 x.exponent.toNat) 1
    else Double.ofRatio? x.negative x.significand (Nat.pow 10 (-x.exponent).toNat)

def exponent? (cs : List Char) : Option Int :=
  match cs with
  | [] => some 0
  | c :: rest => if c = 'e' ∨ c = 'E' then int? rest else none

/-- A numeral without its sign: digits before or after the point, or both, and an exponent. -/
def unsigned? (negative : Bool) (cs : List Char) : Option Numeral := do
  let whole := cs.takeWhile Char.isDigit
  match cs.dropWhile Char.isDigit with
  | '.' :: rest =>
    let fraction := rest.takeWhile Char.isDigit
    if whole.isEmpty && fraction.isEmpty then none
    else
      let exponent ← exponent? (rest.dropWhile Char.isDigit)
      return ⟨negative, decimalValue (whole ++ fraction), exponent - fraction.length⟩
  | rest =>
    if whole.isEmpty then none else return ⟨negative, decimalValue whole, ← exponent? rest⟩

def read? : List Char → Option Numeral
  | '-' :: cs => unsigned? true cs
  | '+' :: cs => unsigned? false cs
  | cs => unsigned? false cs

end Numeral

end FleetConsole.Decimal
