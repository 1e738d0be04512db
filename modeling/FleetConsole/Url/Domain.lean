import FleetConsole.Url.Percent
import FleetConsole.Url.Punycode

/-!
# Domain names

A domain is written in ASCII: letters in small form, other characters replaced by what they stand
for in names, and labels that are then still not ASCII in Punycode. A label that is given in
Punycode must stand for something that cannot be written otherwise. Characters that mean something
in an address may not occur at all. The tables are those of the usual scripts; accents are not
composed with their letters, and nothing is asked of scripts that run from right to left.
-/

namespace FleetConsole.Url.Domain

open Text

/-! ### Characters in names -/

/-- The characters that are left out: hyphens that are only seen at a line end, joiners of width
zero, and selectors of variants. -/
def isIgnored (n : Nat) : Bool :=
  n = 0xAD || n = 0x34F || n = 0x200B || n = 0x2060 || n = 0x2064 || n = 0xFEFF
    || (0x180B ≤ n && n ≤ 0x180D) || (0xFE00 ≤ n && n ≤ 0xFE0F) || (0xE0100 ≤ n && n ≤ 0xE01EF)

/-- The characters that may not occur: controls, separators, and what is not assigned for use by
everyone. -/
def disallowedRanges : List (Nat × Nat) :=
  [(0x80, 0x9F), (0x0600, 0x0605), (0x061C, 0x061C), (0x06DD, 0x06DD), (0x070F, 0x070F),
    (0x1680, 0x1680), (0x180E, 0x180E), (0x200E, 0x200F), (0x2028, 0x202E), (0x2061, 0x2063),
    (0x2065, 0x206F), (0x2FF0, 0x2FFB), (0xD800, 0xF8FF), (0xFDD0, 0xFDEF), (0xFFF0, 0xFFFF),
    (0x1FFFE, 0x1FFFF), (0x2FFFE, 0x2FFFF), (0xE0000, 0xE00FF), (0xE01F0, 0x10FFFF)]

def isDisallowed (n : Nat) : Bool :=
  disallowedRanges.any fun range => range.1 ≤ n && n ≤ range.2

/-- Ranges in which a capital letter is followed by its small one: the capital is the even one. -/
def evenCapitals : List (Nat × Nat) :=
  [(0x100, 0x12F), (0x132, 0x137), (0x14A, 0x177), (0x1DE, 0x1EF), (0x1F8, 0x21F), (0x222, 0x233),
    (0x246, 0x24F), (0x370, 0x373), (0x3D8, 0x3EF), (0x460, 0x481), (0x48A, 0x4BF), (0x4D0, 0x52F),
    (0x1E00, 0x1E95), (0x1EA0, 0x1EFF), (0x2C80, 0x2CE3), (0xA640, 0xA66D), (0xA680, 0xA69B)]

/-- Ranges in which the capital is the odd one. -/
def oddCapitals : List (Nat × Nat) :=
  [(0x139, 0x148), (0x179, 0x17E), (0x1CD, 0x1DC), (0x4C1, 0x4CE)]

/-- Ranges of capital letters whose small ones stand at a distance. -/
def shiftedCapitals : List (Nat × Nat × Nat) :=
  [(0x41, 0x5A, 32), (0xC0, 0xD6, 32), (0xD8, 0xDE, 32), (0x388, 0x38A, 37), (0x391, 0x3A1, 32),
    (0x3A3, 0x3AB, 32), (0x400, 0x40F, 80), (0x410, 0x42F, 32), (0x531, 0x556, 48),
    (0x10400, 0x10427, 40)]

/-- Characters that stand for others. -/
def replacements : List (Nat × String) :=
  [(0xA0, " "), (0xA8, " "), (0xAA, "a"), (0xAF, " "), (0xB2, "2"), (0xB3, "3"), (0xB4, " "),
    (0xB5, "\u03BC"), (0xB8, " "), (0xB9, "1"), (0xBA, "o"), (0xBC, "1\u20444"),
    (0xBD, "1\u20442"), (0xBE, "3\u20444"), (0x130, "i\u0307"), (0x132, "ij"), (0x133, "ij"),
    (0x13F, "l\u00B7"), (0x140, "l\u00B7"), (0x149, "\u02BCn"), (0x178, "\u00FF"), (0x17F, "s"),
    (0x386, "\u03AC"), (0x38C, "\u03CC"), (0x38E, "\u03CD"), (0x38F, "\u03CE"), (0x4C0, "\u04CF"),
    (0x1E9E, "ss"), (0x2002, " "), (0x2003, " "), (0x2009, " "), (0x200A, " "), (0x2024, "."),
    (0x2025, ".."), (0x2026, "..."), (0x202F, " "), (0x205F, " "), (0x2100, "a/c"),
    (0x2103, "\u00B0c"), (0x2116, "no"), (0x2122, "tm"), (0x2126, "\u03C9"), (0x212A, "k"),
    (0x212B, "\u00E5"), (0x3000, " "), (0x3002, "."), (0xFB00, "ff"), (0xFB01, "fi"),
    (0xFB02, "fl"), (0xFF61, ".")]

/-- What a character stands for in a name, if it may occur. -/
def mapChar (c : Char) : Option (List Char) :=
  let n := c.toNat
  let within (range : Nat × Nat) : Bool := range.1 ≤ n && n ≤ range.2
  if isIgnored n then some []
  else if isDisallowed n then none
  else
    match replacements.find? (fun r => r.1 = n),
      shiftedCapitals.find? (fun r => within (r.1, r.2.1)) with
    | some r, _ => some r.2.toList
    | none, some r => some [Char.ofNat (n + r.2.2)]
    | none, none =>
      if 0xFF01 ≤ n ∧ n ≤ 0xFF5E then some [(Char.ofNat (n - 0xFEE0)).toLower]
      else if evenCapitals.any within && n % 2 = 0 then some [Char.ofNat (n + 1)]
      else if oddCapitals.any within && n % 2 = 1 then some [Char.ofNat (n + 1)]
      else some [c]

/-- The marks that combine with the character before them. -/
def isCombining (c : Char) : Bool :=
  let n := c.toNat
  (0x300 ≤ n && n ≤ 0x36F) || (0x483 ≤ n && n ≤ 0x489) || (0x591 ≤ n && n ≤ 0x5BD)
    || (0x610 ≤ n && n ≤ 0x61A) || (0x64B ≤ n && n ≤ 0x65F) || (0x900 ≤ n && n ≤ 0x903)
    || (0x93A ≤ n && n ≤ 0x94F && n ≠ 0x93D) || (0x1AB0 ≤ n && n ≤ 0x1ACE)
    || (0x1DC0 ≤ n && n ≤ 0x1DFF) || (0x20D0 ≤ n && n ≤ 0x20F0) || (0x302A ≤ n && n ≤ 0x302F)
    || n = 0x3099 || n = 0x309A || (0xFE20 ≤ n && n ≤ 0xFE2F)

/-- The signs after which characters may be joined. -/
def joining : List Nat :=
  [0x94D, 0x9CD, 0xA4D, 0xACD, 0xB4D, 0xBCD, 0xC4D, 0xCCD, 0xD4D, 0xDCA, 0xE3A, 0xF84,
    0x1039, 0x17D2]

/-- Whether the joiners in a label stand where they may. -/
def joinersStand (before : Nat) : List Char → Bool
  | [] => true
  | c :: cs =>
    let n := c.toNat
    (if n = 0x200C ∨ n = 0x200D then joining.contains before else true) && joinersStand n cs

/-- Whether a label that is not ASCII is well formed. -/
def isWellFormed (label : List Char) : Bool :=
  !(label.head?.any isCombining) && joinersStand 0 label

/-! ### Domains -/

def isForbidden (c : Char) : Bool :=
  c.toNat ≤ 0x20 || c.toNat = 0x7F
    || ['#', '/', ':', '<', '>', '?', '@', '[', '\\', ']', '^', '|', '%'].contains c

/-- How a label in Punycode begins. -/
def encodedMark : List Char := ['x', 'n', '-', '-']

/-- A label after its characters are replaced, in ASCII. -/
def labelToAscii? (label : List Char) : Option (List Char) :=
  match afterStart? encodedMark label with
  | some code => do
    let decoded ← Punycode.decode? code
    let kept := decoded.all fun c => mapChar c = some [c]
    if kept && isWellFormed decoded && decoded.any (fun c => 0x80 ≤ c.toNat) then some label
    else none
  | none =>
    if label.all fun c => c.toNat < 0x80 then some label
    else if isWellFormed label then some (encodedMark ++ Punycode.encode label)
    else none

def toAscii? (cs : List Char) : Option (List Char) := do
  let mapped ← cs.mapM mapChar
  let labels ← (splitChars (· = '.') mapped.flatten).mapM labelToAscii?
  let ascii := ['.'].intercalate labels
  if ascii.any isForbidden then none else some ascii

end FleetConsole.Url.Domain
