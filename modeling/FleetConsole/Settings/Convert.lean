import FleetConsole.Decimal.Shortest
import FleetConsole.Settings.Draft
import FleetConsole.Settings.Problem
import FleetConsole.Text.Quoted

/-!
# Converting settings

What was given for a setting is converted to the setting's type with some generosity: a number can
be given as text, a truth value as a number or a word, and a text as anything that has one text.
-/

namespace FleetConsole

open Text

namespace GivenSetting

/-- Numbers as texts: never with an exponent, and without a point after a whole number. -/
def numberStyle : Decimal.Style := ⟨none, false, false⟩

def realText : Toml.Real → String
  | .finite x => numberStyle.text x
  | .infinite negative => if negative then "-inf" else "inf"
  | .notANumber => "NaN"

def greatest64 : Nat := Nat.pow 2 64 - 1

def greatest32 : Nat := Nat.pow 2 32 - 1

/-- The whole number nearest to a number, a half being rounded away from zero; the nearest one that
can be represented where there is none. -/
def wholeNumber : Toml.Real → Nat
  | .finite x => if x.negative then 0 else min x.roundHalfUp greatest64
  | .infinite negative => if negative then 0 else greatest64
  | .notANumber => 0

/-- What a text says as a number: a word for a truth value, or digits. -/
def textNumber? (s : String) : Option Nat :=
  let word := SettingName.lower s
  if word = "true" ∨ word = "on" ∨ word = "yes" then some 1
  else if word = "false" ∨ word = "off" ∨ word = "no" then some 0
  else
    let digits :=
      match s.toList with
      | '+' :: rest => rest
      | rest => rest
    (nat? digits).filter fun n => n ≤ greatest64

/-- What a value that does not fit is called. -/
def describe : RawSetting → String
  | .text s => "string " ++ shown s
  | .integer n => "64-bit integer `" ++ intText n ++ "`"
  | .real x => "floating point `" ++ realText x ++ "`"
  | .bool b => "boolean `" ++ (if b then "true" else "false") ++ "`"
  | .sequence => "sequence"
  | .mapping => "map"

def mismatch (given : GivenSetting) (key expected : String) : SettingsProblem :=
  .wrongType ⟨describe given.raw, expected, key, given.origin⟩

def toNat (given : GivenSetting) (key : String) : Except SettingsProblem Nat :=
  match given.raw with
  | .text s =>
    match textNumber? s with
    | some n => .ok n
    | none => .error (given.mismatch key "an integer")
  | .integer n =>
    if 0 ≤ n then .ok n.toNat
    else .error (given.mismatch key "an unsigned 64 bit or less integer")
  | .real x => .ok (wholeNumber x)
  | .bool b => .ok (if b then 1 else 0)
  | .sequence => .error (given.mismatch key "an integer")
  | .mapping => .error (given.mismatch key "an integer")

def toNat32 (given : GivenSetting) (key : String) : Except SettingsProblem Nat := do
  let n ← given.toNat key
  if n ≤ greatest32 then return n
  else
    .error (.wrongType ⟨"64-bit unsigned integer `" ++ natText n ++ "`",
      "an unsigned 32 bit integer", key, none⟩)

def toText (given : GivenSetting) (key : String) : Except SettingsProblem String :=
  match given.raw with
  | .text s => .ok s
  | .integer n => .ok (intText n)
  | .real x => .ok (realText x)
  | .bool b => .ok (if b then "true" else "false")
  | .sequence => .error (given.mismatch key "a string")
  | .mapping => .error (given.mismatch key "a string")

end GivenSetting

end FleetConsole
