import FleetConsole.Command.Task
import FleetConsole.Display.Listing
import FleetConsole.Yaml.Write

/-!
# Commands about machines

Both commands turn to a page of machines first. Then one prints the listing, and the other downloads
the dump of a machine, which has to be on that page.
-/

namespace FleetConsole

namespace Place

def view (place : Place) : View := View.ofAuthorized !place.unauthorized

/-- How many machines a page has, by the place or else by the settings. -/
def pageSize (place : Place) (settings : Settings) : Nat := place.limit.getD settings.pageSize

/-- The operations that lead to a place: to its view, and from the first page to a later one. -/
def operations (place : Place) (limit : Nat) : List Controller.Event :=
  .setView place.view :: if 0 < place.offset then [.setPage place.offset limit] else []

end Place

namespace Command

variable {m : Type → Type} [Monad m]

/-- A controller that displays a place. -/
def turnTo (services : Services m) (settings : Settings) (dir : String) (place : Place) :
    Task m Controller := do
  let limit := place.pageSize settings
  let c ← begin { pageSize := limit, text := place.text }
  let (c, _) ← carryOut services dir c (place.operations limit)
  return c

/-- What is printed of a controller's listing. -/
def listingText (c : Controller) (wide : Bool) : OutputMode → String
  | .json => Json.indentedText c.machines.toJson ++ "\n"
  | .yaml => Yaml.text c.machines.toJson
  | .table => Display.listing c.machines c.viewChoices c.activeView wide ++ "\n"

/-- Whether a controller's listing can be printed. -/
def isPrintable (c : Controller) (wide : Bool) (output : OutputMode) : Bool :=
  output ≠ .table || Display.canList c.machines.items wide

/-- A page of machines is printed. -/
def list (services : Services m) (settings : Settings) (place : Place) (output : OutputMode)
    (wide : Bool) : Task m String := do
  let c ← turnTo services settings settings.dumpDir place
  if isPrintable c wide output then return listingText c wide output else throw .tooWide

/-- Where operations have stored a dump. -/
def storedPath? (effects : List Effects) : Option String :=
  effects.findSome? fun e =>
    match e.progress with
    | .finished _ path => path
    | _ => none

/-- The dump of a machine is stored. -/
def dump (services : Services m) (settings : Settings) (id : Int) (place : Place)
    (out : Option String) : Task m String := do
  let dir := out.getD settings.dumpDir
  let c ← turnTo services settings dir place
  let (_, effects) ← carryOut services dir c [.downloadDump id]
  match storedPath? effects with
  | some path => return "dump saved to " ++ path ++ "\n"
  | none => return ""

end Command

end FleetConsole
