import FleetConsole.Decimal.Double

/-!
# JSON values

A value as the console keeps it: integers exactly, other numbers as finite binary numbers, and the
fields of an object in a fixed order. An object that was read has its fields in the order of their
names, each name once; an object that the console makes itself has them in the order in which they
are to be written.
-/

namespace FleetConsole

/-- A number in a JSON text. An integer here lies between `-2 ^ 63` and `2 ^ 64 - 1`; a written
integer outside these bounds is kept as a binary number, like one with a point or an exponent. -/
inductive Json.Number where
  | int (value : Int)
  | float (value : Double)
  deriving DecidableEq, Repr, Inhabited

inductive Json where
  | null
  | bool (value : Bool)
  | number (value : Json.Number)
  | text (value : String)
  | array (items : List Json)
  | object (fields : List (String × Json))
  deriving Repr, Inhabited

namespace Json

/-- Named values, each name at most once, in the order of the names' code points. -/
abbrev Fields := List (String × Json)

def ofNat (n : Nat) : Json := .number (.int n)

def ofInt (n : Int) : Json := .number (.int n)

namespace Fields

/-- The fields with one more at its place, or with a new value for a name that is there. -/
def insert (name : String) (value : Json) : Fields → Fields
  | [] => [(name, value)]
  | (other, old) :: rest =>
    if name = other then (name, value) :: rest
    else if name < other then (name, value) :: (other, old) :: rest
    else (other, old) :: insert name value rest

def get? (name : String) : Fields → Option Json
  | [] => none
  | (other, value) :: rest => if name = other then some value else get? name rest

theorem get?_insert_self (name : String) (value : Json) (fields : Fields) :
    get? name (insert name value fields) = some value := by
  induction fields with
  | nil => simp [insert, get?]
  | cons field rest ih =>
      obtain ⟨other, old⟩ := field
      by_cases heq : name = other
      · simp [insert, get?, heq]
      · by_cases hlt : name < other <;> simp [insert, get?, heq, hlt, ih]

theorem get?_insert_of_ne {name other : String} (hne : other ≠ name) (value : Json)
    (fields : Fields) : get? other (insert name value fields) = get? other fields := by
  induction fields with
  | nil => simp [insert, get?, hne]
  | cons field rest ih =>
      obtain ⟨first, old⟩ := field
      by_cases heq : name = first
      · subst heq
        simp [insert, get?, hne]
      · by_cases hlt : name < first
        · simp [insert, get?, heq, hlt, hne]
        · by_cases hfirst : other = first <;> simp [insert, get?, heq, hlt, hfirst, ih]

end Fields

end Json

end FleetConsole
