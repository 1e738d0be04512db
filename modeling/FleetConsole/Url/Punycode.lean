import FleetConsole.Text.Blank

/-!
# Punycode

A label that is not ASCII is written with ASCII letters and digits: first the ASCII characters of
the label, then, after a hyphen, what the others are and where they stand. The others are taken in
the order of their code points; each is written as the distance from the one before it, in a number
system whose digits become final at thresholds that adapt to the distances written so far.
-/

namespace FleetConsole.Url.Punycode

open Text

def base : Nat := 36

/-- The threshold of a digit at a position that is a multiple of the base. -/
def threshold (position bias : Nat) : Nat :=
  if position ≤ bias then 1 else if bias + 26 ≤ position then 26 else position - bias

def digitChar (d : Nat) : Char :=
  if d < 26 then Char.ofNat ('a'.toNat + d) else Char.ofNat ('0'.toNat + (d - 26))

def digitValue? (c : Char) : Option Nat :=
  if 'a' ≤ c ∧ c ≤ 'z' then some (c.toNat - 'a'.toNat)
  else if 'A' ≤ c ∧ c ≤ 'Z' then some (c.toNat - 'A'.toNat)
  else if '0' ≤ c ∧ c ≤ '9' then some (c.toNat - '0'.toNat + 26)
  else none

/-- A distance divided until it is small, and the position that this takes. -/
def adaptLoop (delta position : Nat) : Nat × Nat :=
  if 455 < delta then adaptLoop (delta / 35) (position + base) else (delta, position)
termination_by delta
decreasing_by omega

/-- The bias after a distance, given how many characters are placed then. -/
def adapt (delta count : Nat) (first : Bool) : Nat :=
  let start := if first then delta / 700 else delta / 2
  let (rest, position) := adaptLoop (start + start / count) 0
  position + 36 * rest / (rest + 38)

/-- A distance as digits; `fuel` is the distance. -/
def distance (bias : Nat) : Nat → Nat → Nat → List Char
  | 0, _, q => [digitChar q]
  | fuel + 1, position, q =>
    let t := threshold position bias
    if q < t then [digitChar q]
    else
      digitChar (t + (q - t) % (base - t))
        :: distance bias fuel (position + base) ((q - t) / (base - t))

/-- Where the encoder is: what is written, the distance so far, the bias, and how many characters
are placed. -/
structure Progress where
  written : List Char
  delta : Nat
  bias : Nat
  placed : Nat

/-- A character of the label is passed while the code point `n` is being placed. -/
def pass (basic n : Nat) (p : Progress) (c : Char) : Progress :=
  if c.toNat < n then { p with delta := p.delta + 1 }
  else if c.toNat = n then
    ⟨p.written ++ distance p.bias p.delta base p.delta, 0,
      adapt p.delta (p.placed + 1) (p.placed = basic), p.placed + 1⟩
  else p

/-- The code points of a label that are not ASCII, in order and each once. -/
def foreign (label : List Char) : List Nat :=
  ((label.map Char.toNat).filter fun n => 0x80 ≤ n).mergeSort.eraseDups

/-- All occurrences of each code point are placed, from the one after `n` on. -/
def place (label : List Char) (basic : Nat) : List Nat → Nat → Progress → Progress
  | [], _, p => p
  | m :: rest, n, p =>
    let p := { p with delta := p.delta + (m - n) * (p.placed + 1) }
    let p := label.foldl (pass basic m) p
    place label basic rest (m + 1) { p with delta := p.delta + 1 }

def encode (label : List Char) : List Char :=
  let ascii := label.filter fun c => c.toNat < 0x80
  let start := if ascii.isEmpty then [] else ascii ++ ['-']
  (place label ascii.length (foreign label) 0x80 ⟨start, 0, 72, ascii.length⟩).written

/-! ### Decoding -/

/-- A distance read from its digits, added to `i`, and the characters after it. -/
def readDistance (bias : Nat) (i weight position : Nat) : List Char → Option (Nat × List Char)
  | [] => none
  | c :: cs => do
    let d ← digitValue? c
    let i := i + d * weight
    if Nat.pow 2 32 ≤ i then none
    else
      let t := threshold position bias
      if d < t then some (i, cs)
      else readDistance bias i (weight * (base - t)) (position + base) cs

/-- The label after the distances are read, at most as many as `fuel`. -/
def decodeLoop : Nat → List Char → Nat → Nat → Nat → List Char → Option (List Char)
  | 0, _, _, _, _, _ => none
  | _ + 1, [], _, _, _, label => some label
  | fuel + 1, cs, n, i, bias, label => do
    let (j, rest) ← readDistance bias i 1 base cs
    let count := label.length + 1
    let n := n + j / count
    let at_ := j % count
    if 0x10FFFF < n ∨ (0xD800 ≤ n ∧ n ≤ 0xDFFF) then none
    else
      decodeLoop fuel rest n (at_ + 1) (adapt (j - i) count (i = 0))
        (label.take at_ ++ Char.ofNat n :: label.drop at_)

def decode? (cs : List Char) : Option (List Char) :=
  let parts := splitChars (· = '-') cs
  let digits := parts.getLast?.getD []
  let ascii := cs.take (cs.length - digits.length - 1)
  if cs.all fun c => c.toNat < 0x80 then
    decodeLoop (digits.length + 1) digits 0x80 0 72 ascii
  else none

end FleetConsole.Url.Punycode
