import FleetConsole.Decimal.Double

/-!
# TOML values

What a configuration file can hold. Points in time are kept as their text, since nothing is computed
with them; numbers include the infinities and the value that is no number.
-/

namespace FleetConsole.Toml

inductive Real where
  | finite (x : Double)
  | infinite (negative : Bool)
  | notANumber
  deriving DecidableEq, Repr, Inhabited

inductive Value where
  | text (s : String)
  | integer (n : Int)
  | real (x : Real)
  | bool (b : Bool)
  | dateTime (s : String)
  | array (items : List Value)
  | table (entries : List (String × Value))
  deriving Repr, Inhabited

abbrev Table := List (String × Value)

end FleetConsole.Toml
