import FleetConsole.Decimal.Shortest
import FleetConsole.Json.Value
import FleetConsole.Yaml.Scalar

/-!
# Writing YAML

Containers are written as blocks: the items of a sequence behind dashes, the fields of a mapping
behind their names, and empty containers as brackets. A sequence that is the value of a field stands
at the indentation of the field; everything else inside a container stands two blanks further in. A
key that is too long or has a line break is marked by a question mark, and its value by a colon on a
line of its own.

A piece of text may end in a line break of its own, when it is a literal block. The line after it
then needs no further break.
-/

namespace FleetConsole.Yaml

open Text

/-- Numbers in YAML text: an exponent from `1e16` on and below `1e-5`, without a sign unless it is
negative, and `.0` after a whole number. -/
def numberStyle : Decimal.Style := ⟨some (-5, 15), true, false⟩

def step : Nat := 2

/-- The start of a line at an indentation, after a piece of text. -/
def lineAfter (before : List Char) (width : Nat) : List Char :=
  (if before.getLast?.any isBreak then [] else ['\n']) ++ indentation width

/-- A key with its mark, and what marks the value: on the same line or on a line of its own. -/
def keyText (width : Nat) (name : String) : List Char :=
  let key := scalarText (styleOf name) (width + step) name
  if isSimpleKey name then key ++ [':']
  else
    let marked := '?' :: ' ' :: key
    marked ++ lineAfter marked width ++ [':']

/-- A value that is not a container, or an empty one. -/
def flatText (width : Nat) : Json → List Char
  | .null => ['n', 'u', 'l', 'l']
  | .bool true => ['t', 'r', 'u', 'e']
  | .bool false => ['f', 'a', 'l', 's', 'e']
  | .number (.int n) => (intText n).toList
  | .number (.float x) => (numberStyle.text x).toList
  | .text s => scalarText (styleOf s) width s
  | .array _ => ['[', ']']
  | .object _ => ['{', '}']

mutual

/-- A value behind a mark at an indentation: a dash, or the colon of a key that is not simple. -/
def afterMark (width : Nat) : Json → List Char
  | .array (x :: xs) => ' ' :: sequence (width + step) (x :: xs)
  | .object (field :: fields) => ' ' :: mapping (width + step) (field :: fields)
  | value => ' ' :: flatText (width + step) value

/-- A value behind a simple key at an indentation. -/
def afterKey (width : Nat) : Json → List Char
  | .array (x :: xs) => '\n' :: indentation width ++ sequence width (x :: xs)
  | .object (field :: fields) =>
    '\n' :: indentation (width + step) ++ mapping (width + step) (field :: fields)
  | value => ' ' :: flatText (width + step) value

/-- The items of a sequence, the first one on the line that has been begun. -/
def sequence (width : Nat) : List Json → List Char
  | [] => []
  | [x] => '-' :: afterMark width x
  | x :: y :: rest =>
    let item := '-' :: afterMark width x
    item ++ lineAfter item width ++ sequence width (y :: rest)

def mapping (width : Nat) : List (String × Json) → List Char
  | [] => []
  | [field] => entry width field
  | field :: next :: rest =>
    let first := entry width field
    first ++ lineAfter first width ++ mapping width (next :: rest)

def entry (width : Nat) : String × Json → List Char
  | (name, value) =>
    keyText width name ++ if isSimpleKey name then afterKey width value else afterMark width value

end

def document : Json → List Char
  | .array (x :: xs) => sequence 0 (x :: xs)
  | .object (field :: fields) => mapping 0 (field :: fields)
  | value => flatText step value

def text (value : Json) : String :=
  let cs := document value
  String.ofList (cs ++ lineAfter cs 0)

end FleetConsole.Yaml
