import FleetConsole.Decimal.Shortest
import FleetConsole.Json.Value

/-!
# Writing JSON

One writer serves the compact form, which goes over the wire, and the indented form, which is
printed. The two differ only in what stands between the items of a container, so they are one
recursion with a layout. Control characters are the only ones escaped beside the quote and the
backslash: text that is not ASCII is written as it is.
-/

namespace FleetConsole.Json

open FleetConsole.Text

/-- What stands between the parts of a container: nothing, or a line break and an indentation of two
blanks for each container around. -/
inductive Layout where
  | compact
  | indented (level : Nat)

namespace Layout

def inner : Layout → Layout
  | compact => compact
  | indented level => indented (level + 1)

/-- What is written before an item and before the bracket that closes a nonempty container. -/
def gap : Layout → List Char
  | compact => []
  | indented level => '\n' :: List.replicate (2 * level) ' '

/-- What is written between the name and the value of a field. -/
def colon : Layout → List Char
  | compact => [':']
  | indented _ => [':', ' ']

end Layout

/-- Numbers in JSON text: an exponent from `1e16` on and below `1e-5`, with its sign, and `.0` after
a whole number, which tells it from an integer. -/
def numberStyle : Decimal.Style := ⟨some (-5, 15), true, true⟩

def escapeChar (c : Char) : List Char :=
  if c = '"' then ['\\', '"']
  else if c = '\\' then ['\\', '\\']
  else if c = '\x08' then ['\\', 'b']
  else if c = '\x0c' then ['\\', 'f']
  else if c = '\n' then ['\\', 'n']
  else if c = '\r' then ['\\', 'r']
  else if c = '\t' then ['\\', 't']
  else if c.toNat < 0x20 then '\\' :: 'u' :: lowDigits hexChar 16 4 c.toNat
  else [c]

def quoted (s : String) : List Char :=
  '"' :: s.toList.flatMap escapeChar ++ ['"']

def Number.text : Number → String
  | .int n => intText n
  | .float x => numberStyle.text x

mutual

def write (layout : Layout) : Json → List Char
  | .null => ['n', 'u', 'l', 'l']
  | .bool true => ['t', 'r', 'u', 'e']
  | .bool false => ['f', 'a', 'l', 's', 'e']
  | .number n => n.text.toList
  | .text s => quoted s
  | .array [] => ['[', ']']
  | .array (item :: rest) =>
    '[' :: layout.inner.gap ++ write layout.inner item ++ writeItems layout.inner rest
      ++ layout.gap ++ [']']
  | .object [] => ['{', '}']
  | .object (field :: rest) =>
    '{' :: layout.inner.gap ++ writeField layout.inner field ++ writeFields layout.inner rest
      ++ layout.gap ++ ['}']

/-- The items of an array after the first one. -/
def writeItems (layout : Layout) : List Json → List Char
  | [] => []
  | item :: rest => ',' :: layout.gap ++ write layout item ++ writeItems layout rest

def writeFields (layout : Layout) : List (String × Json) → List Char
  | [] => []
  | field :: rest => ',' :: layout.gap ++ writeField layout field ++ writeFields layout rest

def writeField (layout : Layout) : String × Json → List Char
  | (name, value) => quoted name ++ layout.colon ++ write layout value

end

/-- A value on one line without blanks. -/
def compactText (value : Json) : String :=
  String.ofList (write .compact value)

/-- A value with every item and field of a nonempty container on a line of its own. -/
def indentedText (value : Json) : String :=
  String.ofList (write (.indented 0) value)

end FleetConsole.Json
