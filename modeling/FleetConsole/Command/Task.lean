import FleetConsole.Command.Problem
import FleetConsole.Command.Services

/-!
# Working with a controller

A command drives a controller by one operation after the other, and each operation waits for the
answers to the requests that it sent and until a dump among them is stored. When operations have
left an error to report, the command stops there.
-/

namespace FleetConsole.Command

/-- A part of a command, which may fail. -/
abbrev Task (m : Type → Type) := ExceptT Problem m

variable {m : Type → Type} [Monad m]

/-- An operation, the answers to its requests, and the storing of the dumps that came: the
controller afterwards, and what each of these events brought about. -/
def perform (services : Services m) (dir : String) (c : Controller) (event : Controller.Event) :
    m (Controller × List Effects) := do
  let (c, effects) := c.step event
  let answers ← effects.requests.mapM services.settle
  let overtaken ← services.overtake
  let (c, later) := c.run (if overtaken then answers.reverse else answers)
  let stored ← (later.flatMap Effects.arrivals).mapM (services.store dir)
  let (c, last) := c.run stored
  return (c, effects :: later ++ last)

/-- Operations one after the other. -/
def performAll (services : Services m) (dir : String) (c : Controller) :
    List Controller.Event → m (Controller × List Effects)
  | [] => return (c, [])
  | event :: events => do
    let (c, effects) ← perform services dir c event
    let (c, later) ← performAll services dir c events
    return (c, effects ++ later)

def errors (effects : List Effects) : List Notification :=
  (effects.flatMap Effects.notifications).filter fun n => n.severity = .error

/-- Whether there is nothing to report. -/
def checked (effects : List Effects) : Except Problem Unit :=
  if (errors effects).isEmpty then .ok () else .error (.reported (errors effects))

/-- A controller that is set up for a command. -/
def begin (setup : Setup) : Task m Controller :=
  ofExcept ((Controller.initial setup).mapError .refused)

/-- Operations that have to leave nothing to report. -/
def carryOut (services : Services m) (dir : String) (c : Controller)
    (events : List Controller.Event) : Task m (Controller × List Effects) := do
  let (c, effects) ← liftM (performAll services dir c events)
  ofExcept (checked effects)
  return (c, effects)

end FleetConsole.Command
