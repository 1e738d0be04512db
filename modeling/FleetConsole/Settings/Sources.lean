import FleetConsole.Settings.Convert
import FleetConsole.Storage.Tree
import FleetConsole.Toml.Document

/-!
# Where settings come from

Settings have defaults; a configuration file takes precedence over them, and the environment over
the file. The file is the one asked for, or one with the usual name if there is one. A name without
the extension of the format stands for the name with it, but a file of exactly that name comes first
and is then of no known format.
-/

namespace FleetConsole

open Text Storage

structure Settings where
  /-- The address of the server. -/
  serverUrl : String
  /-- The header that carries the session token. -/
  sessionHeader : String
  sessionToken : Option String
  /-- How many machines a page has. -/
  pageSize : Nat
  /-- Where dumps are stored. -/
  dumpDir : String
  /-- How many seconds a request may take. -/
  timeout : Nat
  deriving DecidableEq, Repr, Inhabited

namespace Settings

/-- The defaults, as given by nobody in particular. -/
def defaults : SettingsDraft :=
  [("server_url", ⟨.text "http://127.0.0.1:8080", none⟩),
    ("session_header", ⟨.text "authorization", none⟩),
    ("page_size", ⟨.integer 10, none⟩),
    ("dump_dir", ⟨.text ".", none⟩),
    ("request_timeout_secs", ⟨.integer 30, none⟩)]

/-! ### The configuration file -/

/-- The name of the configuration file when none is asked for, without its extension. -/
def usualName : String := "fleetview"

def extension : String := "toml"

/-- Whether the last name of a path ends in the extension behind a name that is not empty. -/
def hasExtension (path : Path) : Bool :=
  match path.names.getLast? with
  | none => false
  | some name =>
    match (splitChars (· = '.') name.toList).reverse with
    | last :: before :: rest =>
      String.ofList last = extension && !(before.isEmpty && rest.isEmpty)
    | _ => false

/-- The path of the file that a name without extension stands for. -/
def withExtension? (name : String) : Option Path :=
  let path := (Path.ofText name).dropDots
  match path.names.getLast? with
  | none => none
  | some last =>
    if last = "." ∨ last = ".." then none
    else some { path with names := path.names.dropLast ++ [last ++ "." ++ extension] }

/-- The way from one place to another, both given by names from the root. -/
def wayFrom : List String → List String → List String
  | here :: heres, there :: theres =>
    if here = there then wayFrom heres theres
    else List.replicate (heres.length + 1) ".." ++ there :: theres
  | heres, theres => List.replicate heres.length ".." ++ theres

def displayName (t : Tree) (path : Path) : String :=
  let names := path.names.filter (· ≠ ".")
  joinWith "/" (if path.absolute then wayFrom t.here names else names)

def pathText (path : Path) : String :=
  (if path.absolute then "/" else "") ++ joinWith "/" path.names

/-- The files that a name may stand for, as texts of paths. -/
def candidates (name : String) : List String :=
  name :: ((withExtension? name).map pathText).toList

def findFile (t : Tree) (name : String) : Except SettingsProblem (Path × Bytes) :=
  let path := Path.ofText name
  match t.readPath? name with
  | some bytes => if hasExtension path then .ok (path, bytes) else .error (.unknownFormat name)
  | none =>
    match withExtension? name with
    | none => .error (.missingFile name)
    | some path =>
      match t.readPath? (pathText path) with
      | some bytes => .ok (path, bytes)
      | none => .error (.missingFile name)

/-- The file to read: the one asked for, which must be there, or the usual one, which need not. -/
def chosenFile (t : Tree) (config : Option String) :
    Except SettingsProblem (Option (Path × Bytes)) :=
  match config with
  | some name => (findFile t name).map some
  | none => .ok (findFile t usualName).toOption

def readTable (bytes : Bytes) : Except SettingsProblem Toml.Table :=
  match (String.fromUTF8? (ByteArray.mk bytes.toArray)).bind Toml.parse? with
  | some table => .ok table
  | none => .error .malformedFile

/-! ### The environment -/

/-- How the names of the console's variables begin. -/
def variableStart : String := "fleetview_"

def environmentName : String := "the environment"

/-- The setting that a variable is for. -/
def variableKey? (name : String) : Option String :=
  (afterStart? variableStart.toList (SettingName.lower name).toList).map String.ofList

/-- What the variables of an environment give. -/
def fromEnvironment (environment : List (String × String)) : List (String × Toml.Value) :=
  environment.filterMap fun v => (variableKey? v.1).map fun key => (key, .text v.2)

/-! ### Loading -/

/-- A setting that has a default. -/
def given (draft : SettingsDraft) (key : String) : GivenSetting :=
  (draft.get? key).getD ⟨.text "", none⟩

def ofDraft (draft : SettingsDraft) : Except SettingsProblem Settings := do
  let text (key : String) : Except SettingsProblem String := (given draft key).toText key
  return {
    serverUrl := ← text "server_url"
    sessionHeader := ← text "session_header"
    sessionToken := ← (draft.get? "session_token").mapM fun token => token.toText "session_token"
    pageSize := ← (given draft "page_size").toNat32 "page_size"
    dumpDir := ← text "dump_dir"
    timeout := ← (given draft "request_timeout_secs").toNat "request_timeout_secs" }

def draft (t : Tree) (environment : List (String × String)) (config : Option String) :
    Except SettingsProblem SettingsDraft := do
  let fromFile ←
    match ← chosenFile t config with
    | some (path, bytes) => do
      let table ← readTable bytes
      pure (defaults.giveAll (displayName t path) table)
    | none => pure defaults
  return fromFile.giveAll environmentName (fromEnvironment environment)

def load (t : Tree) (environment : List (String × String)) (config : Option String) :
    Except SettingsProblem Settings := do
  ofDraft (← draft t environment config)

end Settings

end FleetConsole
