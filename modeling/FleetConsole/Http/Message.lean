import FleetConsole.Url.Basic

/-!
# Requests and responses

What the console sends and what comes back. A request is without a body. A response may break off
before its body is complete, and there may be no response at all.
-/

namespace FleetConsole.Http

inductive Method where
  | get
  | put
  deriving DecidableEq, Repr, Inhabited

def Method.name : Method → String
  | get => "GET"
  | put => "PUT"

/-- A request, with the fields that it has beside those that every request has. -/
structure Request where
  method : Method
  url : Url
  fields : List (String × String) := []
  deriving DecidableEq, Repr, Inhabited

/-- What is asked of the host: the path and the query. -/
def Request.target (request : Request) : String :=
  String.ofList (request.url.path.chars ++ Url.marked '?' request.url.query)

structure Response where
  status : Nat
  fields : List (String × List UInt8) := []
  body : List UInt8 := []
  /-- Whether all of the body arrived. -/
  complete : Bool := true
  deriving DecidableEq, Repr, Inhabited

/-- The value of the first field with a name, which is given in lower case. -/
def Response.field? (response : Response) (name : String) : Option (List UInt8) :=
  (response.fields.find? fun field =>
    String.ofList (field.1.toList.map Char.toLower) = name).map Prod.snd

abbrev Reply := Option Response

end FleetConsole.Http
