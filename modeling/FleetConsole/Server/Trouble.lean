import FleetConsole.Failure
import FleetConsole.Url.Basic

/-!
# Trouble on the way to the server

Why the server could not be asked, or what it sent not be read. Trouble with the address of a
request names the address, if the text was an address at all.
-/

namespace FleetConsole.Server

/-- Why there is no answer of the server. -/
inductive Trouble where
  /-- The field for the session token has a name that no field can have. -/
  | fieldName (name : String)
  /-- There is no request to send. -/
  | notBuilt
  /-- There is no request to send to an address. -/
  | notBuiltFor (url : Url)
  /-- Nothing came back. -/
  | notSent (url : Url)
  /-- A request was sent on again and again. -/
  | sentOnTooOften (url : Url)
  /-- What came back is incomplete, or not what was asked for. -/
  | notDecoded
  deriving DecidableEq, Repr, Inhabited

namespace Trouble

/-- How messages name the address of a request. -/
def forUrl (url : Url) : String := " for url (" ++ url.text ++ ")"

def text : Trouble → String
  | fieldName name => "invalid session header name '" ++ name ++ "': invalid HTTP header name"
  | notBuilt => "builder error"
  | notBuiltFor url => "builder error" ++ forUrl url
  | notSent url => "error sending request" ++ forUrl url
  | sentOnTooOften url => "error following redirect" ++ forUrl url
  | notDecoded => "error decoding response body"

def failure (trouble : Trouble) : Failure := .transport trouble.text

end Trouble

end FleetConsole.Server
