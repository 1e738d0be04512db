import FleetConsole.Decimal.Read
import FleetConsole.Text.Blank
import FleetConsole.Text.Digits

/-!
# YAML scalars

A text can be written in several styles. It is written plainly where that is possible; it is quoted
if it would otherwise be read as something else than a text, or if a character or its place makes
the plain style impossible. A text of several lines is a literal block where that is possible.
Whether a style is possible depends on what occurs in the text (`Features`).
-/

namespace FleetConsole.Yaml

open Text

/-! ### Texts that look like something else -/

/-- The digits of a number, behind a sign or not, that begin with a zero that does not belong there.
-/
def hasLeadingZero (cs : List Char) : Bool :=
  let unsigned :=
    match cs with
    | '-' :: rest => rest
    | '+' :: rest => rest
    | rest => rest
  match unsigned with
  | '0' :: c :: rest => (c :: rest).all Char.isDigit
  | _ => false

/-- The base that a mark announces, and what follows the mark. -/
def radix? : List Char → Option (Nat × List Char)
  | '0' :: 'x' :: rest => some (16, rest)
  | '0' :: 'o' :: rest => some (8, rest)
  | '0' :: 'b' :: rest => some (2, rest)
  | _ => none

/-- Whether a text is an integer of at most 128 bits in a base that it announces. -/
def isRadixInteger (cs : List Char) : Bool :=
  let below (bound : Nat) (cs : List Char) : Bool :=
    match radix? cs with
    | some (base, rest) => (natInBase? base rest).any (· < bound)
    | none => false
  match cs with
  | '-' :: rest => below (Nat.pow 2 127 + 1) rest
  | '+' :: rest => below (Nat.pow 2 128) rest
  | rest => below (Nat.pow 2 128) rest

/-- Whether a text is a decimal number that is not too large to be one. -/
def isDecimal (cs : List Char) : Bool :=
  ((Decimal.Numeral.read? cs).bind Decimal.Numeral.toDouble?).isSome

/-- The words for absent values, for truth values, and for numbers that no digits spell. -/
def words : List String :=
  ["", "~", "null", "Null", "NULL", "true", "True", "TRUE", "false", "False", "FALSE",
    ".inf", ".Inf", ".INF", "+.inf", "+.Inf", "+.INF", "-.inf", "-.Inf", "-.INF",
    ".nan", ".NaN", ".NAN"]

/-- Whether a plain text would be read as something else than a text. -/
def isAmbiguous (s : String) : Bool :=
  let cs := s.toList
  words.contains s || hasLeadingZero cs || isRadixInteger cs || isDecimal cs

/-! ### What occurs in a text -/

def isBreak (c : Char) : Bool :=
  c = '\n' || c = '\r' || c = '\u0085' || c = '\u2028' || c = '\u2029'

/-- Whether a character, or the end of the text, separates words. -/
def isGap (c : Option Char) : Bool :=
  match c with
  | none => true
  | some c => c = ' ' || c = '\t' || c = '\x00' || isBreak c

def isPrintable (c : Char) : Bool :=
  let n := c.toNat
  n = 0x0A || (0x20 ≤ n && n ≤ 0x7E) || (0xA0 ≤ n && n ≠ 0xFEFF && n ≠ 0xFFFE && n ≠ 0xFFFF)

/-- The characters that have a meaning at the start of a text. -/
def startIndicators : List Char :=
  ['#', ',', '[', ']', '{', '}', '&', '*', '!', '|', '>', '\'', '"', '%', '@', '\x60']

/-- What occurs in a text. -/
structure Features where
  /-- A character that means something where it stands. -/
  indicator : Bool := false
  /-- A character that cannot stand for itself. -/
  special : Bool := false
  lineBreak : Bool := false
  startsBlank : Bool := false
  endsBlank : Bool := false
  /-- A blank at the very end. -/
  endsSpace : Bool := false
  /-- A blank right after a line break. -/
  spaceAfterBreak : Bool := false
  /-- A blank right before a line break. -/
  spaceBeforeBreak : Bool := false
  deriving DecidableEq, Repr

/-- Whether a character means something, given the characters around it; no character before it
means that it is the first one. -/
def isIndicator (before : Option Char) (c : Char) (after : Option Char) : Bool :=
  match before with
  | none =>
    startIndicators.contains c || ((c = '?' || c = ':' || c = '-') && isGap after)
  | some b => (c = ':' && isGap after) || (c = '#' && isGap (some b))

/-- The features that come from a character at a place, and those of the characters after it. -/
def featuresFrom (before : Option Char) : List Char → Features
  | [] => {}
  | c :: cs =>
    let later := featuresFrom (some c) cs
    { later with
      indicator := isIndicator before c cs.head? || later.indicator
      special := !isPrintable c || later.special
      lineBreak := isBreak c || later.lineBreak
      spaceAfterBreak := (c = ' ' && before.any isBreak) || later.spaceAfterBreak
      spaceBeforeBreak := (isBreak c && before = some ' ') || later.spaceBeforeBreak }

def features (cs : List Char) : Features :=
  let marker := cs.take 3 = ['-', '-', '-'] || cs.take 3 = ['.', '.', '.']
  let blank (c : Option Char) : Bool := c.any fun c => c = ' ' || isBreak c
  let found := featuresFrom none cs
  { found with
    indicator := marker || found.indicator
    startsBlank := blank cs.head?
    endsBlank := blank cs.getLast?
    endsSpace := cs.getLast? = some ' ' }

/-! ### Styles -/

inductive Style where
  | plain
  | singleQuoted
  | doubleQuoted
  | literal
  deriving DecidableEq, Repr, Inhabited

namespace Features

def allowsPlain (f : Features) : Bool :=
  !(f.indicator || f.special || f.lineBreak || f.startsBlank || f.endsBlank || f.spaceAfterBreak
    || f.spaceBeforeBreak)

def allowsSingleQuoted (f : Features) : Bool :=
  !(f.special || f.spaceAfterBreak || f.spaceBeforeBreak)

def allowsLiteral (f : Features) : Bool :=
  !(f.special || f.endsSpace || f.spaceBeforeBreak)

end Features

def styleOf (s : String) : Style :=
  let cs := s.toList
  let f := features cs
  if cs.contains '\n' then if f.allowsLiteral then .literal else .doubleQuoted
  else if !isAmbiguous s && f.allowsPlain then .plain
  else if f.allowsSingleQuoted then .singleQuoted
  else .doubleQuoted

/-- Whether a text may be a key on the line of its value. -/
def isSimpleKey (s : String) : Bool :=
  !s.toList.any isBreak && s.utf8ByteSize ≤ 128

/-! ### Writing -/

def escapeChar (c : Char) : List Char :=
  let n := c.toNat
  if c = '"' || c = '\\' then ['\\', c]
  else if isPrintable c && !isBreak c then [c]
  else if n = 0x00 then ['\\', '0']
  else if n = 0x07 then ['\\', 'a']
  else if n = 0x08 then ['\\', 'b']
  else if n = 0x09 then ['\\', 't']
  else if n = 0x0A then ['\\', 'n']
  else if n = 0x0B then ['\\', 'v']
  else if n = 0x0C then ['\\', 'f']
  else if n = 0x0D then ['\\', 'r']
  else if n = 0x1B then ['\\', 'e']
  else if n = 0x85 then ['\\', 'N']
  else if n = 0x2028 then ['\\', 'L']
  else if n = 0x2029 then ['\\', 'P']
  else if n ≤ 0xFF then '\\' :: 'x' :: lowDigits upperHexChar 16 2 n
  else if n ≤ 0xFFFF then '\\' :: 'u' :: lowDigits upperHexChar 16 4 n
  else '\\' :: 'U' :: lowDigits upperHexChar 16 8 n

def indentation (width : Nat) : List Char := List.replicate width ' '

/-- Characters of which those after a line break stand behind an indentation. -/
def indentLines (escape : Char → List Char) (width : Nat) (afterBreak : Bool) :
    List Char → List Char
  | [] => []
  | c :: cs =>
    if isBreak c then c :: indentLines escape width true cs
    else
      (if afterBreak then indentation width else []) ++ escape c
        ++ indentLines escape width false cs

/-- A text between single quotes, where a quote is written twice. -/
def singleQuoted (width : Nat) (cs : List Char) : List Char :=
  let escape (c : Char) : List Char := if c = '\'' then ['\'', '\''] else [c]
  let trailing := if cs.getLast?.any isBreak then indentation width else []
  '\'' :: indentLines escape width false cs ++ trailing ++ ['\'']

/-- What a literal block says about its start and its end: the depth of its indentation if that
cannot be seen from the first line, and whether it ends in no line break or in more than one. -/
def literalHints (cs : List Char) : List Char :=
  let start := if cs.head?.any fun c => c = ' ' || isBreak c then ['2'] else []
  let finish :=
    match cs.reverse with
    | [] => ['-']
    | [c] => if isBreak c then ['+'] else ['-']
    | c :: d :: _ => if !isBreak c then ['-'] else if isBreak d then ['+'] else []
  start ++ finish

/-- A literal block, beginning with its mark. -/
def literal (width : Nat) (cs : List Char) : List Char :=
  '|' :: literalHints cs ++ '\n' :: indentLines (fun c => [c]) width true cs

def scalarText (style : Style) (width : Nat) (s : String) : List Char :=
  let cs := s.toList
  match style with
  | .plain => cs
  | .singleQuoted => singleQuoted width cs
  | .doubleQuoted => '"' :: cs.flatMap escapeChar ++ ['"']
  | .literal => literal width cs

end FleetConsole.Yaml
