import FleetConsole.Dump.Name
import FleetConsole.Http.Message
import FleetConsole.Machine.Page
import FleetConsole.Machine.Query

/-!
# What the server is asked

The server is asked for four things: a page of machines, the installation token, another token in
its place, and the dump of a machine. Each has its own kind of answer, and a place below the address
of the server.
-/

namespace FleetConsole.Server

open Text

inductive Call where
  | list (query : Query)
  | token
  | regenerate
  | dump (machine : Int)
  deriving DecidableEq, Repr, Inhabited

namespace Call

abbrev Answer : Call → Type
  | list _ => Page
  | token => String
  | regenerate => String
  | dump _ => Dump.Artifact

def method : Call → Http.Method
  | regenerate => .put
  | _ => .get

/-- The place of machines. -/
def machinesPath : String := "/api/machines"

/-- The place of the installation token. -/
def tokenPath : String := "/api/machines-server-token"

/-- The place below the address of the server. -/
def path : Call → String
  | list _ => machinesPath
  | token => tokenPath
  | regenerate => tokenPath
  | dump machine => machinesPath ++ "/" ++ intText machine ++ "/dump"

def queryParameters (query : Query) : List (String × String) :=
  [("start", natText query.offset), ("limit", natText query.limit)]
    ++ (query.text.map fun text => ("text", text)).toList
    ++ (query.authorized.map fun b => ("authorized", if b then "true" else "false")).toList

def parameters : Call → List (String × String)
  | list query => queryParameters query
  | _ => []

end Call

end FleetConsole.Server
