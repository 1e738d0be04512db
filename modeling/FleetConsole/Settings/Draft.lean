import FleetConsole.Text.Blank
import FleetConsole.Text.Digits
import FleetConsole.Toml.Value

/-!
# Drafts of settings

Settings are gathered from several sources before they are converted to their types: a draft holds,
for each name, what was given for it last and where it came from. Names are compared without regard
to letter case. A name can go on with the name of a field or with a number in brackets; what is
given for it then makes the named setting a mapping or a sequence, whatever is inside.
-/

namespace FleetConsole

open Text

/-- What was given for a setting, not yet converted. -/
inductive RawSetting where
  | text (s : String)
  | integer (n : Int)
  | real (x : Toml.Real)
  | bool (b : Bool)
  | sequence
  | mapping
  deriving DecidableEq, Repr, Inhabited

/-- A raw setting and where it came from, unless it was put together from parts. -/
structure GivenSetting where
  raw : RawSetting
  origin : Option String
  deriving DecidableEq, Repr, Inhabited

namespace RawSetting

def ofValue : Toml.Value → RawSetting
  | .text s => text s
  | .integer n => integer n
  | .real x => real x
  | .bool b => bool b
  | .dateTime s => text s
  | .array _ => sequence
  | .table _ => mapping

end RawSetting

/-! ### Names -/

/-- How a name goes on. -/
inductive NameStep where
  | field
  | index
  deriving DecidableEq, Repr

/-- A name, and how it goes on. -/
structure SettingName where
  name : String
  step : Option NameStep
  deriving DecidableEq, Repr, Inhabited

namespace SettingName

/-- A small letter for a capital one. The sign of the unit kelvin is a capital letter, too. -/
def lowerChar (c : Char) : Char := if c = '\u212A' then 'k' else c.toLower

def lower (s : String) : String := String.ofList (s.toList.map lowerChar)

def isNameChar (c : Char) : Bool := c.isAlphanum || c = ' ' || c = '_' || c = '-'

/-- Characters after a number in brackets, which may have blanks around it. -/
def afterIndex? (cs : List Char) : Option (List Char) :=
  let skipBlanks (cs : List Char) : List Char := cs.dropWhile fun c => c = ' ' || c = '\t'
  let unsigned :=
    match skipBlanks cs with
    | '-' :: rest => rest
    | rest => rest
  if unsigned.head?.any Char.isDigit then
    afterStart? [']'] (skipBlanks (unsigned.dropWhile Char.isDigit))
  else none

/-- The steps that follow a name, at most as many as `fuel`. -/
def steps? : Nat → List Char → Option (List NameStep)
  | 0, _ => none
  | fuel + 1, cs =>
    match cs with
    | [] => some []
    | '.' :: rest =>
      if rest.head?.any isNameChar then
        (steps? fuel (rest.dropWhile isNameChar)).map (NameStep.field :: ·)
      else none
    | '[' :: rest => do return .index :: (← steps? fuel (← afterIndex? rest))
    | _ => none

/-- The name that a text stands for: the whole text, if it is not a name with steps. -/
def ofText (s : String) : SettingName :=
  let cs := (lower s).toList
  let name := cs.takeWhile isNameChar
  match steps? (cs.length + 1) (cs.dropWhile isNameChar) with
  | some steps => if name.isEmpty then ⟨lower s, none⟩ else ⟨String.ofList name, steps.head?⟩
  | none => ⟨lower s, none⟩

end SettingName

/-! ### Drafts -/

/-- What was given last for each name. -/
abbrev SettingsDraft := List (String × GivenSetting)

namespace SettingsDraft

def get? (name : String) : SettingsDraft → Option GivenSetting
  | [] => none
  | (other, given) :: rest => if name = other then some given else get? name rest

def set (name : String) (given : GivenSetting) : SettingsDraft → SettingsDraft
  | [] => [(name, given)]
  | (other, old) :: rest =>
    if name = other then (name, given) :: rest else (other, old) :: set name given rest

theorem get?_set_self (name : String) (given : GivenSetting) (draft : SettingsDraft) :
    get? name (set name given draft) = some given := by
  induction draft with
  | nil => simp [set, get?]
  | cons entry rest ih =>
      obtain ⟨other, old⟩ := entry
      by_cases h : name = other <;> simp [set, get?, h, ih]

theorem get?_set_of_ne {name other : String} (hne : other ≠ name) (given : GivenSetting)
    (draft : SettingsDraft) : get? other (set name given draft) = get? other draft := by
  induction draft with
  | nil => simp [set, get?, hne]
  | cons entry rest ih =>
      obtain ⟨first, old⟩ := entry
      by_cases h : name = first
      · subst h
        simp [set, get?, hne]
      · by_cases hfirst : other = first <;> simp [set, get?, h, hfirst, ih]

/-- The draft with a name made a mapping or a sequence, unless it is one. -/
def become (name : String) (raw : RawSetting) (draft : SettingsDraft) : SettingsDraft :=
  if (draft.get? name).any fun given => given.raw = raw then draft
  else draft.set name ⟨raw, none⟩

/-- The draft after a source gave a value for a name. An empty table changes only a name for which
nothing was given yet. -/
def give (draft : SettingsDraft) (origin : String) (key : String) (v : Toml.Value) :
    SettingsDraft :=
  let place := SettingName.ofText key
  match place.step, v with
  | some .field, _ => draft.become place.name .mapping
  | some .index, _ => draft.become place.name .sequence
  | none, .table [] =>
    if (draft.get? place.name).isSome then draft else draft.become place.name .mapping
  | none, .table (_ :: _) => draft.become place.name .mapping
  | none, v => draft.set place.name ⟨RawSetting.ofValue v, some origin⟩

def giveAll (draft : SettingsDraft) (origin : String) (values : List (String × Toml.Value)) :
    SettingsDraft :=
  values.foldl (fun draft entry => draft.give origin entry.1 entry.2) draft

end SettingsDraft

end FleetConsole
