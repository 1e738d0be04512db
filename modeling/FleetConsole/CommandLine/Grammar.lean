import FleetConsole.Account
import FleetConsole.Text.Digits

/-!
# The grammar of command lines

Subcommands form levels. Each level has its options, which take a value, and its switches, which do
not; some options are understood on every level. Here is what there is, and what a value must be.
-/

namespace FleetConsole.CommandLine

open Text

/-- Why a command line is not carried out: it is not understood, or it asks for help. -/
inductive Rejection where
  | unknownArgument
  | invalidValue
  | invalidSubcommand
  | valueValidation
  | argumentConflict
  | missingRequiredArgument
  | missingSubcommand
  | tooManyValues
  | displayHelp
  | displayHelpOnMissing
  | displayVersion
  deriving DecidableEq, Repr, Inhabited

namespace Rejection

def name : Rejection → String
  | unknownArgument => "UnknownArgument"
  | invalidValue => "InvalidValue"
  | invalidSubcommand => "InvalidSubcommand"
  | valueValidation => "ValueValidation"
  | argumentConflict => "ArgumentConflict"
  | missingRequiredArgument => "MissingRequiredArgument"
  | missingSubcommand => "MissingSubcommand"
  | tooManyValues => "TooManyValues"
  | displayHelp => "DisplayHelp"
  | displayHelpOnMissing => "DisplayHelpOnMissingArgumentOrSubcommand"
  | displayVersion => "DisplayVersion"

/-- The exit code: only asking is no fault. -/
def exitCode : Rejection → Nat
  | displayHelp => 0
  | displayVersion => 0
  | _ => 2

end Rejection

/-! ### Levels -/

/-- The program and its subcommands. -/
inductive Level where
  | top
  | machines
  | machinesList
  | machinesDump
  | token
  | tokenShow
  | tokenRegenerate
  | menu
  deriving DecidableEq, Repr, Inhabited

def Level.children : Level → List (String × Level)
  | top => [("machines", machines), ("token", token), ("menu", menu)]
  | machines => [("list", machinesList), ("dump", machinesDump)]
  | token => [("show", tokenShow), ("regenerate", tokenRegenerate)]
  | _ => []

def Level.child? (level : Level) (name : String) : Option Level :=
  (level.children.find? fun child => child.1 = name).map Prod.snd

/-- Whether a level has subcommands, one of which is then required. -/
def Level.hasChildren (level : Level) : Bool := !level.children.isEmpty

/-! ### Options and switches -/

inductive Opt where
  | config
  | serverUrl
  | sessionToken
  | sessionHeader
  | pageSize
  | limit
  | offset
  | text
  | id
  | out
  | role
  deriving DecidableEq, Repr, Inhabited

inductive Switch where
  | unauthorized
  | json
  | yaml
  | wide
  deriving DecidableEq, Repr, Inhabited

/-- The options that are understood on every level; one of them has two names. -/
def globalOptions : List (String × Opt) :=
  [("config", .config), ("server-url", .serverUrl), ("session-token", .sessionToken),
    ("token", .sessionToken), ("session-header", .sessionHeader), ("page-size", .pageSize)]

def Level.ownOptions : Level → List (String × Opt)
  | machinesList => [("limit", .limit), ("offset", .offset), ("text", .text)]
  | machinesDump =>
    [("id", .id), ("limit", .limit), ("offset", .offset), ("text", .text), ("out", .out)]
  | menu => [("role", .role)]
  | _ => []

def Level.switches : Level → List (String × Switch)
  | machinesList =>
    [("unauthorized", .unauthorized), ("json", .json), ("yaml", .yaml), ("wide", .wide)]
  | machinesDump => [("unauthorized", .unauthorized)]
  | _ => []

def Level.option? (level : Level) (name : String) : Option Opt :=
  ((globalOptions ++ level.ownOptions).find? fun o => o.1 = name).map Prod.snd

def Level.switch? (level : Level) (name : String) : Option Switch :=
  (level.switches.find? fun s => s.1 = name).map Prod.snd

/-! ### Values -/

/-- What the value of an option must be. -/
inductive Kind where
  | text
  /-- A text that is not empty. -/
  | path
  /-- An integer within bounds, both ends included. -/
  | integer (least greatest : Int)
  | role
  deriving DecidableEq, Repr

def Opt.kind : Opt → Kind
  | config => .path
  | serverUrl => .text
  | sessionToken => .text
  | sessionHeader => .text
  | pageSize => .integer 0 (Nat.pow 2 32 - 1)
  | limit => .integer 0 (Nat.pow 2 32 - 1)
  | offset => .integer 0 (Nat.pow 2 32 - 1)
  | text => .text
  | id => .integer (-(Nat.pow 2 63 : Int)) (Nat.pow 2 63 - 1)
  | out => .path
  | role => .role

inductive Value where
  | text (s : String)
  | integer (n : Int)
  | role (r : Role)
  deriving DecidableEq, Repr, Inhabited

def Kind.read (kind : Kind) (s : String) : Except Rejection Value :=
  match kind with
  | .text => .ok (.text s)
  | .path => if s.isEmpty then .error .invalidValue else .ok (.text s)
  | .integer least greatest =>
    match int? s.toList with
    | some n =>
      if least ≤ n ∧ n ≤ greatest then .ok (.integer n) else .error .valueValidation
    | none => .error .valueValidation
  | .role =>
    match Role.ofName? s with
    | some found => .ok (.role found)
    | none => .error .invalidValue

end FleetConsole.CommandLine
