import FleetConsole.Command.Run
import FleetConsole.Dump.Delivery

/-!
# The console in a world

A world says how the server replies and what befalls the files, and keeps what the console does to
it: the requests that were sent and the files as they are. A server may reply to every request as it
likes, also in view of the requests before. In a world the console is a function, so what it does
can be computed and proved.
-/

namespace FleetConsole

/-- A server's behaviour, the files, and the requests sent so far. -/
structure World where
  /-- The reply to a request that follows others. -/
  reply : (before : List Http.Request) → Http.Request → Http.Reply
  client : Http.Client := Server.usualClient
  /-- Whether, after these requests, answers to requests sent together arrive in reverse. -/
  overtake : List Http.Request → Bool := fun _ => false
  interference : Dump.Interference := .none
  files : Storage.Tree := {}
  /-- The values of environment variables by their names. -/
  environment : List (String × String) := []
  /-- The requests of the console, each with those that the client sent because of it. -/
  trails : List Http.Trail := []

namespace World

def sent (w : World) : List Http.Request := w.trails.map Http.Trail.request

/-- All requests that the server got. -/
def received (w : World) : List Http.Request := w.trails.flatMap Http.Trail.requests

/-- A request on its way to the server, which got others before. -/
def connection (w : World) (request : Http.Request) : StateM (List Http.Request) Http.Reply :=
  modifyGet fun before => (w.reply before request, before ++ [request])

/-- What comes of a request of the console. -/
def outcome (w : World) (request : Http.Request) : Server.Outcome :=
  ((Server.exchange w.client w.connection Server.redirectLimit request).run w.received).1

/-- A request of the console is exchanged for a response. -/
def exchange (request : Http.Request) :
    StateM World (Except Server.Trouble Http.Response) :=
  modifyGet fun w =>
    let outcome := w.outcome request
    (outcome.result, { w with trails := w.trails ++ [outcome.trail] })

def store (dir : String) (artifact : Dump.Artifact) : StateM World (Except Failure String) :=
  modifyGet fun w =>
    let (result, files) := Dump.deliver w.interference dir artifact w.files
    (result, { w with files })

def services (settings : Settings) : Services (StateM World) where
  ask := Server.ask exchange settings.server
  overtake := modifyGet fun w => (w.overtake w.received, w)
  deliver := store

/-- What a command line prints in a world, or its problem, and the world afterwards. -/
def run (w : World) (invocation : Invocation) : Except Command.Problem String × World :=
  (Command.run services w.files w.environment invocation).run w

end World

end FleetConsole
