import FleetConsole.Controller
import FleetConsole.Server.Answer

/-!
# What commands rely on

Commands ask a server and store dumps. Both are done by services, which may take any effect and
answer as they like; a command is the same whatever they are. A request of the controller becomes a
call, and the answer to the call becomes the event that the controller is waiting for. So does what
becomes of a dump that is to be stored.
-/

namespace FleetConsole

/-- What is done outside of commands. -/
structure Services (m : Type → Type) where
  /-- A call to the server and its answer. -/
  ask : (call : Server.Call) → m (Except Failure call.Answer)
  /-- Whether the answers to requests that were sent together arrive last request first. -/
  overtake : m Bool
  /-- A dump is put into a directory; the answer is the path at which it is stored. -/
  deliver : (dir : String) → Dump.Artifact → m (Except Failure String)

namespace Services

variable {m : Type → Type} [Monad m]

/-- The event that answers a request. -/
def settle (services : Services m) : Request → m Controller.Event
  | .list request => do
    return .listAnswered request.tag (← services.ask (.list request.query))
  | .token ⟨serial, .fetch _⟩ => do
    return .tokenAnswered serial (← services.ask .token)
  | .token ⟨serial, .regenerate⟩ => do
    return .tokenAnswered serial (← services.ask .regenerate)
  | .dump request => do
    return .dumpAnswered request.serial (← services.ask (.dump request.machine))

/-- The event that ends the storing of a dump, which goes to a directory. -/
def store (services : Services m) (dir : String) (arrival : Dump.Arrival) :
    m Controller.Event := do
  return .dumpStored arrival.serial (← services.deliver dir arrival.artifact)

end Services

end FleetConsole
