import FleetConsole.Text.Blank
import FleetConsole.Text.Digits
import FleetConsole.Time.Instant

/-!
# Fields of a machine as text

One text per kind of field. A field without a value is shown as a dash, so that columns stay apart.
-/

namespace FleetConsole.Display

open Text

def dash : String := "-"

/-- A text, unless it is missing or blank. -/
def optional (value : Option String) : String :=
  match value with
  | some s => if isBlankText s then dash else s
  | none => dash

def timestamp (t : Option Instant) : String :=
  match t with
  | some t => t.text .seconds
  | none => dash

/-- An address with a port. An address with colons of its own is put in brackets unless it has some.
-/
def address (address : String) (port : Nat) : String :=
  if isBlankText address then dash
  else
    let cs := address.toList
    let host := if cs.contains ':' && cs.head? ≠ some '[' then "[" ++ address ++ "]" else address
    host ++ ":" ++ natText port

def truth (b : Bool) : String := if b then "yes" else "no"

end FleetConsole.Display
