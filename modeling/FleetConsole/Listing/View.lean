import FleetConsole.Text.Blank
import FleetConsole.Text.Digits

/-!
# The two views

The console shows either the authorized or the unauthorized machines. Both views are always offered;
the offer of the unauthorized one says how many there are, so that newcomers are noticed.
-/

namespace FleetConsole

inductive View where
  | authorized
  | unauthorized
  deriving DecidableEq, Repr, Inhabited

namespace View

open Text

/-- The view of the machines that are authorized, or of those that are not. -/
def ofAuthorized (b : Bool) : View := if b then authorized else unauthorized

def isAuthorized : View → Bool
  | authorized => true
  | unauthorized => false

def name : View → String
  | authorized => "authorized"
  | unauthorized => "unauthorized"

structure Choice where
  label : String
  view : View
  deriving DecidableEq, Repr, Inhabited

/-- The two views on offer, given how many machines are unauthorized. -/
def choices (count : Nat) : List Choice :=
  let counted := if count = 0 then "Unauthorized" else "Unauthorized (" ++ natText count ++ ")"
  [⟨"Authorized", authorized⟩, ⟨counted, unauthorized⟩]

/-- The views on one line, the active one in brackets. -/
def toggleText (choices : List Choice) (active : View) : String :=
  let mark (choice : Choice) : String :=
    if choice.view = active then "[" ++ choice.label ++ "]" else choice.label
  joinWith "  " (choices.map mark)

end View

end FleetConsole
