import FleetConsole.Decimal.Double
import FleetConsole.Text.Digits

/-!
# The fewest digits that read back

A finite binary number is written with the fewest decimal digits that round to it again, and among
those with the nearest ones. The numbers that round to it form an interval around it; for one digit,
two digits and so on the two decimal neighbours of the number are tested against that interval, and
the first grid with a neighbour in it gives the digits. Seventeen digits always suffice.

How digits and exponent become text differs between the formats the console writes, so that choice
is a record, and each format states its own.
-/

namespace FleetConsole.Decimal

open FleetConsole.Text

structure Scientific where
  digits : Nat
  exponent : Int
  deriving DecidableEq, Repr, Inhabited

def scale (num den : Nat) (exponent : Int) : Nat × Nat :=
  if 0 ≤ exponent then (num * Nat.pow 10 exponent.toNat, den)
  else (num, den * Nat.pow 10 (-exponent).toNat)

/-- The exponent of the leading decimal digit of the positive quotient `num / den`. -/
def leadingPlace (num den : Nat) : Int :=
  let magnitude : Int := (Nat.log2 num : Int) - (Nat.log2 den : Int)
  let guess := (magnitude * 30103).fdiv 100000
  let reaches (place : Int) : Bool :=
    let (n, d) := scale num den (-place)
    d ≤ n
  if reaches (guess + 1) then guess + 1
  else if reaches guess then guess
  else guess - 1

/-- Whether a decimal number rounds to the positive binary number `x`: it lies between the middles
to the neighbours of `x`, and on a middle only if the mantissa is even. -/
def roundsTo (x : Double) (digits : Nat) (exponent : Int) : Bool :=
  let (num, den) := x.ratio
  let (n, d) := scale digits 1 exponent
  -- Everything is compared in quarters of the last place of `x`.
  let place : Nat := if 0 ≤ x.exponent then Nat.pow 2 x.exponent.toNat else 1
  let narrow := x.mantissa = Nat.pow 2 52 ∧ Double.leastExponent < x.exponent
  let below := 4 * num - (if narrow then place else 2 * place)
  let above := 4 * num + 2 * place
  let value := 4 * n * den
  if x.mantissa % 2 = 0 then below * d ≤ value ∧ value ≤ above * d
  else below * d < value ∧ value < above * d

/-- Of the two neighbours of `x` on the grid of a decimal exponent, the one to write: the nearer one
that rounds to `x`, of two equally near ones the even one. -/
def neighbour? (x : Double) (exponent : Int) : Option Scientific :=
  let (num, den) := x.ratio
  let (n, d) := scale num den (-exponent)
  let low := n / d
  let rest := n % d
  let lowFits := roundsTo x low exponent && 0 < low
  let highFits := roundsTo x (low + 1) exponent
  if lowFits && highFits then
    if 2 * rest < d then some ⟨low, exponent⟩
    else if d < 2 * rest then some ⟨low + 1, exponent⟩
    else some ⟨low + low % 2, exponent⟩
  else if lowFits then some ⟨low, exponent⟩
  else if highFits then some ⟨low + 1, exponent⟩
  else none

/-- The first of `fuel` ever finer grids on which `x` has a neighbour to write. -/
def search (x : Double) : Nat → Int → Scientific
  | 0, exponent => ⟨0, exponent⟩
  | fuel + 1, exponent =>
    match neighbour? x exponent with
    | some decimal => decimal
    | none => search x fuel (exponent - 1)

/-- The same number without the zeros at the end of its digits, of which at most `fuel` are looked
at. -/
def Scientific.dropZeros : Nat → Scientific → Scientific
  | 0, x => x
  | fuel + 1, x =>
    if 0 < x.digits ∧ x.digits % 10 = 0 then dropZeros fuel ⟨x.digits / 10, x.exponent + 1⟩ else x

/-- The fewest digits that read back as the positive number `x`, and of those the nearest. -/
def shortest (x : Double) : Scientific :=
  let (num, den) := x.ratio
  (search x 17 (leadingPlace num den)).dropZeros 17

structure Style where
  /-- The least and the greatest place of the leading digit that is written without an exponent, if
  there are such bounds. -/
  positional : Option (Int × Int)
  /-- Whether a whole number keeps a point and a zero. -/
  pointZero : Bool
  /-- Whether a nonnegative exponent has a sign. -/
  signedExponent : Bool

/-- Digits with the point put after the place of the units. -/
def positionalText (pointZero : Bool) (ds : List Char) (exponent : Int) : List Char :=
  if 0 ≤ exponent then
    ds ++ List.replicate exponent.toNat '0' ++ (if pointZero then ['.', '0'] else [])
  else
    let places := (-exponent).toNat
    if places < ds.length then
      ds.take (ds.length - places) ++ '.' :: ds.drop (ds.length - places)
    else
      '0' :: '.' :: List.replicate (places - ds.length) '0' ++ ds

/-- The first digit, the others behind a point, and the place of the first digit as exponent. -/
def scientificText (signed : Bool) (ds : List Char) (place : Int) : List Char :=
  let fraction :=
    match ds with
    | [] => []
    | [d] => [d]
    | d :: rest => d :: '.' :: rest
  let exponent := (intText place).toList
  fraction ++ 'e' :: (if signed && 0 ≤ place then '+' :: exponent else exponent)

def Style.text (style : Style) (x : Double) : String :=
  let unsigned : List Char :=
    if x.isZero then positionalText style.pointZero ['0'] 0
    else
      let decimal := shortest x
      let ds := digits decimal.digits
      let place := decimal.exponent + (ds.length : Int) - 1
      let plain :=
        match style.positional with
        | none => true
        | some (least, greatest) => least ≤ place && place ≤ greatest
      if plain then positionalText style.pointZero ds decimal.exponent
      else scientificText style.signedExponent ds place
  String.ofList (if x.negative then '-' :: unsigned else unsigned)

end FleetConsole.Decimal
