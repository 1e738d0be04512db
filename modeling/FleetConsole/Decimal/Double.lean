/-!
# Finite binary floating-point numbers

A finite number of the 64-bit binary format is kept as its sign, its mantissa and the exponent of
its last place, so every operation is exact arithmetic on natural numbers followed by one rounding.
The rounding is to the nearest number of the format, and of two equally near ones to the one whose
mantissa is even. A result above the largest number of the format is reported, never replaced.
-/

namespace FleetConsole

/-- The number `± mantissa * 2 ^ exponent`. The numbers built here have a mantissa of at most 53
bits and an exponent of at least `-1074`, and of 53 bits exactly unless the exponent is the least
one. -/
structure Double where
  negative : Bool
  mantissa : Nat
  exponent : Int
  deriving DecidableEq, Repr, Inhabited

namespace Double

/-- The exponent of the last place of the numbers next to zero. -/
def leastExponent : Int := -1074

/-- The exponent of the last place of the largest numbers. -/
def greatestExponent : Int := 971

def zero (negative : Bool) : Double := ⟨negative, 0, leastExponent⟩

def isZero (x : Double) : Bool := x.mantissa == 0

/-- A quotient rounded to the nearest natural number, a half to the even neighbour. -/
def divNearest (num den : Nat) : Nat :=
  let quotient := num / den
  let rest := num % den
  if 2 * rest < den then quotient
  else if den < 2 * rest then quotient + 1
  else quotient + quotient % 2

/-- The exponent of the last place of the binary numbers around the positive quotient `num / den`:
the one that gives the quotient 53 bits, or the least one if that is greater. -/
def lastPlace (num den : Nat) : Int :=
  let magnitude : Int := (Nat.log2 num : Int) - (Nat.log2 den : Int)
  let reached : Bool :=
    if 0 ≤ magnitude then den * Nat.pow 2 magnitude.toNat ≤ num
    else den ≤ num * Nat.pow 2 (-magnitude).toNat
  let exponent := (if reached then magnitude else magnitude - 1) - 52
  if exponent < leastExponent then leastExponent else exponent

/-- The number of the format nearest to `± num / den`, or `none` above the largest one. -/
def ofRatio? (negative : Bool) (num den : Nat) : Option Double :=
  if num = 0 then some (zero negative)
  else
    let exponent := lastPlace num den
    let mantissa :=
      if 0 ≤ exponent then divNearest num (den * Nat.pow 2 exponent.toNat)
      else divNearest (num * Nat.pow 2 (-exponent).toNat) den
    let rounded : Double :=
      if mantissa = Nat.pow 2 53 then ⟨negative, Nat.pow 2 52, exponent + 1⟩
      else ⟨negative, mantissa, exponent⟩
    if greatestExponent < rounded.exponent then none else some rounded

/-- The number of the format nearest to a natural number below `2 ^ 64`. -/
def ofNat (negative : Bool) (n : Nat) : Double :=
  (ofRatio? negative n 1).getD (zero negative)

/-- The number without its sign as a quotient of natural numbers. -/
def ratio (x : Double) : Nat × Nat :=
  if 0 ≤ x.exponent then (x.mantissa * Nat.pow 2 x.exponent.toNat, 1)
  else (x.mantissa, Nat.pow 2 (-x.exponent).toNat)

/-- A number times a natural number that is itself rounded to the format first. -/
def mulRounded? (x : Double) (n : Nat) : Option Double := do
  let factor ← ofRatio? false n 1
  let (num, den) := x.ratio
  let (num', den') := factor.ratio
  ofRatio? x.negative (num * num') (den * den')

/-- A number divided by a positive natural number that is itself rounded to the format first. -/
def divRounded? (x : Double) (n : Nat) : Option Double := do
  let divisor ← ofRatio? false n 1
  let (num, den) := x.ratio
  let (num', den') := divisor.ratio
  ofRatio? x.negative (num * den') (den * num')

/-- The number without its sign rounded to the nearest natural number, a half upwards. -/
def roundHalfUp (x : Double) : Nat :=
  let (num, den) := x.ratio
  (2 * num + den) / (2 * den)

end Double

end FleetConsole
