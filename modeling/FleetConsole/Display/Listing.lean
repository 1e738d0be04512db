import FleetConsole.Display.Field
import FleetConsole.Display.Table
import FleetConsole.Listing.Tracker
import FleetConsole.Listing.View

/-!
# The listing as text

The machines of a page as a table, below the choice of views and the number of matching machines.
-/

namespace FleetConsole.Display

open Text

/-- The headers of the table of machines; the wide one says more. -/
def machineHeaders (wide : Bool) : List String :=
  ["ID", "HOSTNAME", "ADDRESS", "AGENT_VERSION", "LAST_VISITED"]
    ++ if wide then ["AUTHORIZED", "ERROR"] else []

def machineCells (wide : Bool) (m : Machine) : List String :=
  [intText m.id, optional (some m.hostname), address m.address m.agentPort, optional m.agentVersion,
    timestamp m.lastVisitedAt]
    ++ if wide then [truth m.authorized, optional m.error] else []

def machineTable (machines : List Machine) (wide : Bool) : String :=
  table (machineHeaders wide) (machines.map (machineCells wide))

def canList (machines : List Machine) (wide : Bool) : Bool :=
  machines.isEmpty ||
    canTabulate (machineHeaders wide) (machines.map (machineCells wide))

/-- The listing under the choice of views. -/
def listing (l : Listing) (choices : List View.Choice) (active : View) (wide : Bool) : String :=
  View.toggleText choices active ++ "\n" ++ "total: " ++ natText l.total ++ "\n"
    ++ if l.items.isEmpty then "no machines found" else machineTable l.items wide

end FleetConsole.Display
