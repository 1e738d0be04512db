import FleetConsole.CommandLine.Grammar
import FleetConsole.Text.Blank

/-!
# Reading command lines

The words are taken one by one on the current level until one of them is a subcommand, which takes
the words after it. The value of an option follows an equals sign or is the next word. In the latter
case the value is looked at only when something else begins, or at the end of the level, so a fault
in a later word can be found first. A level is checked as a whole at its end, the inner one before
the outer one.
-/

namespace FleetConsole.CommandLine

open Text

structure Given where
  options : List (Opt × Value) := []
  switches : List Switch := []
  deriving DecidableEq, Repr, Inhabited

namespace Given

def get? (given : Given) (opt : Opt) : Option Value :=
  (given.options.find? fun o => o.1 = opt).map Prod.snd

/-- An option with a value, or without one where the words ended too early. -/
def addOption (given : Given) (opt : Opt) (value : Option String) : Except Rejection Given :=
  match value with
  | none => .error .invalidValue
  | some s =>
    if (given.get? opt).isSome then .error .argumentConflict
    else do
      let value ← opt.kind.read s
      return { given with options := given.options ++ [(opt, value)] }

def addSwitch (given : Given) (switch : Switch) : Except Rejection Given :=
  if given.switches.contains switch then .error .argumentConflict
  else .ok { given with switches := given.switches ++ [switch] }

end Given

/-- What was given on a level so far, and an option whose value has not been looked at yet, with its
value if that was there. -/
structure Scan where
  given : Given := {}
  pending : Option (Opt × Option String) := none
  deriving DecidableEq, Repr, Inhabited

namespace Scan

/-- Whether the next word is the value of an option. -/
def awaitsValue (scan : Scan) : Bool :=
  match scan.pending with
  | some (_, none) => true
  | _ => false

/-- The pending option is looked at. -/
def settle (scan : Scan) : Except Rejection Given :=
  match scan.pending with
  | some (opt, value) => scan.given.addOption opt value
  | none => .ok scan.given

def takeValue (scan : Scan) (s : String) : Scan :=
  { scan with pending := scan.pending.map fun p => (p.1, some s) }

/-- Help or the version is asked for; a fault in what is pending comes first. -/
def askFor (scan : Scan) (rejection : Rejection) : Except Rejection Scan := do
  let _ ← scan.settle
  .error rejection

end Scan

/-- The name and the value of a word that begins with two hyphens, without them. -/
def splitAssignment (cs : List Char) : String × Option String :=
  let name := String.ofList (cs.takeWhile (· ≠ '='))
  match cs.dropWhile (· ≠ '=') with
  | _ :: value => (name, some (String.ofList value))
  | [] => (name, none)

/-- A word of two hyphens, a name, and perhaps a value. -/
def readLong (level : Level) (scan : Scan) (cs : List Char) : Except Rejection Scan :=
  let (name, value) := splitAssignment cs
  let alone (act : Except Rejection Scan) : Except Rejection Scan :=
    if value.isSome then .error .tooManyValues else act
  if name = "help" then alone (scan.askFor .displayHelp)
  else if name = "version" ∧ level = .top then alone (scan.askFor .displayVersion)
  else
    match level.option? name, level.switch? name with
    | some opt, _ => do
      let given ← scan.settle
      match value with
      | some s => return { given := ← given.addOption opt (some s) }
      | none => return { given, pending := some (opt, none) }
    | none, some switch => alone do
      let given ← scan.settle
      return { given := ← given.addSwitch switch }
    | none, none => .error .unknownArgument

/-- A word of one hyphen and a letter. -/
def readShort (level : Level) (scan : Scan) (letter : Char) : Except Rejection Scan :=
  if letter = 'h' then scan.askFor .displayHelp
  else if letter = 'V' ∧ level = .top then scan.askFor .displayVersion
  else .error .unknownArgument

/-- A word that is neither an option nor a value nor a subcommand. Behind a double hyphen, the name
of a subcommand is not one. -/
def strayWord (level : Level) (behindHyphens : Bool) (word : String) : Rejection :=
  if behindHyphens && ((level.child? word).isSome || (word = "help" && level.hasChildren)) then
    .unknownArgument
  else if level.hasChildren then .invalidSubcommand
  else .unknownArgument

/-- What asking for help about a subcommand leads to. Help is itself a subcommand where there are
others. -/
def helpAbout (level : Level) : List String → Rejection
  | [] => .displayHelp
  | word :: words =>
    match level.child? word with
    | some child => helpAbout child words
    | none =>
      if word = "help" ∧ level.hasChildren ∧ words.isEmpty then .displayHelp else .invalidSubcommand

/-- What a level as a whole lacks. -/
def checkLevel (level : Level) (given : Given) (hasChild : Bool) : Except Rejection Unit :=
  if level.hasChildren && !hasChild then
    if given.options.isEmpty && given.switches.isEmpty then .error .displayHelpOnMissing
    else .error .missingSubcommand
  else if given.switches.contains .json && given.switches.contains .yaml then
    .error .argumentConflict
  else if level = .machinesDump ∧ given.get? .id = none then .error .missingRequiredArgument
  else .ok ()

/-- What one word is on its level. -/
inductive Word where
  | subcommand (child : Level)
  | help
  | hyphens
  | long (cs : List Char)
  | short (letter : Char)
  | value
  | stray
  deriving DecidableEq, Repr

def Word.classify (level : Level) (awaitsValue : Bool) (word : String) : Word :=
  match (if awaitsValue then none else level.child? word), word.toList with
  | some child, _ => .subcommand child
  | none, '-' :: '-' :: cs => if cs.isEmpty then .hyphens else .long cs
  | none, '-' :: c :: _ => .short c
  | none, _ =>
    if awaitsValue then .value
    else if word = "help" ∧ level.hasChildren then .help
    else .stray

/-- The levels of a command line with what was given on each, outermost first. -/
def readLevels (level : Level) (scan : Scan) (behindHyphens : Bool) :
    List String → Except Rejection (List (Level × Given))
  | [] => do
    let given ← scan.settle
    checkLevel level given false
    return [(level, given)]
  | word :: words =>
    if behindHyphens then .error (strayWord level true word)
    else
      match Word.classify level scan.awaitsValue word with
      | .subcommand child => do
        let inner ← readLevels child {} false words
        let given ← scan.settle
        checkLevel level given true
        return (level, given) :: inner
      | .help => .error (helpAbout level words)
      | .hyphens => readLevels level scan true words
      | .long cs => do readLevels level (← readLong level scan cs) false words
      | .short letter => do readLevels level (← readShort level scan letter) false words
      | .value => readLevels level (scan.takeValue word) false words
      | .stray => .error (strayWord level false word)

end FleetConsole.CommandLine
