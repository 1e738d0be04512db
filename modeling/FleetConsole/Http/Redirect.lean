import FleetConsole.Http.Message

/-!
# Redirects

A response may send the client on to another address. The client then makes another request of its
own accord, with the method that the status calls for. How the address is told in the response,
which fields go along, and whether the method is kept where statuses leave that open, is up to the
client.
-/

namespace FleetConsole.Http

/-- What a client does about redirects as it likes. -/
structure Client where
  /-- The address that a location field means, as seen from an address. -/
  locate : Url → List UInt8 → Option Url
  /-- Whether a request keeps its method when what it asks for is somewhere else. -/
  keepsMethod : Bool
  /-- The fields that go along from a request to an address to which it is sent on. -/
  fields : Request → Url → List (String × String)

namespace Client

variable (client : Client)

/-- The method of a request to which a response with a status sends the client on. -/
def redirected? (method : Method) (status : Nat) : Option Method :=
  if status = 301 || status = 302 then some (if client.keepsMethod then method else .get)
  else if status = 303 then some .get
  else if status = 307 || status = 308 then some method
  else none

/-- The request to which a response to a request sends the client on. -/
def next? (request : Request) (response : Response) : Option Request := do
  let method ← client.redirected? request.method response.status
  let url ← client.locate request.url (← response.field? "location")
  return { method, url, fields := client.fields request url }

end Client

/-- A request, and those to which the client was sent on from it, in order. -/
structure Trail where
  request : Request
  followed : List Request := []
  deriving DecidableEq, Repr, Inhabited

def Trail.requests (trail : Trail) : List Request := trail.request :: trail.followed

end FleetConsole.Http
