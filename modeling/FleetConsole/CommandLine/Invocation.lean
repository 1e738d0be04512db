import FleetConsole.CommandLine.Parse
import FleetConsole.Settings.Validate

/-!
# What is asked for

A command line that was understood: the command to carry out, and the settings that the command line
gives. A setting can be given on any level; the innermost one counts.
-/

namespace FleetConsole

/-- Which page of machines a command is about. -/
structure Place where
  unauthorized : Bool := false
  limit : Option Nat := none
  offset : Nat := 0
  text : Option String := none
  deriving DecidableEq, Repr, Inhabited

inductive OutputMode where
  | table
  | json
  | yaml
  deriving DecidableEq, Repr, Inhabited

def OutputMode.name : OutputMode → String
  | table => "table"
  | json => "json"
  | yaml => "yaml"

/-- What the console can be asked to do. -/
inductive Command where
  | listMachines (place : Place) (output : OutputMode) (wide : Bool)
  | dumpMachine (id : Int) (place : Place) (out : Option String)
  | showToken
  | regenerateToken
  | menu (role : Option Role)
  deriving DecidableEq, Repr, Inhabited

/-- A command with the settings of the command line. -/
structure Invocation where
  config : Option String := none
  overrides : SettingsOverrides := {}
  command : Command
  deriving DecidableEq, Repr, Inhabited

namespace CommandLine

namespace Value

def text? : Value → Option String
  | text s => some s
  | _ => none

def integer? : Value → Option Int
  | integer n => some n
  | _ => none

def role? : Value → Option Role
  | role r => some r
  | _ => none

end Value

namespace Given

def text? (given : Given) (opt : Opt) : Option String := (given.get? opt).bind Value.text?

def integer? (given : Given) (opt : Opt) : Option Int := (given.get? opt).bind Value.integer?

def nat? (given : Given) (opt : Opt) : Option Nat := (given.integer? opt).map Int.toNat

def role? (given : Given) (opt : Opt) : Option Role := (given.get? opt).bind Value.role?

def has (given : Given) (switch : Switch) : Bool := given.switches.contains switch

def place (given : Given) : Place :=
  ⟨given.has .unauthorized, given.nat? .limit, (given.nat? .offset).getD 0, given.text? .text⟩

def output (given : Given) : OutputMode :=
  if given.has .json then .json else if given.has .yaml then .yaml else .table

end Given

/-- The command of a level without subcommands. -/
def command? (level : Level) (given : Given) : Option Command :=
  match level with
  | .machinesList => some (.listMachines given.place given.output (given.has .wide))
  | .machinesDump =>
    (given.integer? .id).map fun id => .dumpMachine id given.place (given.text? .out)
  | .tokenShow => some .showToken
  | .tokenRegenerate => some .regenerateToken
  | .menu => some (.menu (given.role? .role))
  | _ => none

/-- The options of all levels, those of the innermost first. -/
def innermostFirst (levels : List (Level × Given)) : Given :=
  { options := levels.reverse.flatMap fun level => level.2.options }

def overrides (given : Given) : SettingsOverrides :=
  { serverUrl := given.text? .serverUrl
    sessionHeader := given.text? .sessionHeader
    sessionToken := given.text? .sessionToken
    pageSize := given.nat? .pageSize
    dumpDir := none }

/-- The command that levels ask for. The last level has no subcommands and all it needs. -/
def invocation (levels : List (Level × Given)) : Except Rejection Invocation :=
  let globals := innermostFirst levels
  match levels.getLast?.bind fun level => command? level.1 level.2 with
  | some command =>
    .ok { config := globals.text? .config, overrides := overrides globals, command }
  | none => .error .missingSubcommand

/-- The command line of words, without the name of the program. -/
def parse (words : List String) : Except Rejection Invocation := do
  invocation (← readLevels .top {} false words)

end CommandLine

end FleetConsole
