import FleetConsole.Http.Header
import FleetConsole.Server.Call
import FleetConsole.Server.Trouble
import FleetConsole.Settings.Sources
import FleetConsole.Text.Base64
import FleetConsole.Text.Blank
import FleetConsole.Text.Utf8
import FleetConsole.Url.Parse

/-!
# Requests to the server

A server is known by its address and, if the operator has a session, by the field that carries the
session token. A request is built from a call in this order: the address, the credentials in it, the
parameters, the session field. What goes wrong first counts, except that a name that is no field
name is refused even before the address is read.
-/

namespace FleetConsole

/-- A server, and how the operator is known to it. -/
structure Server where
  /-- The address, to which the places of calls are appended. -/
  base : String
  /-- The name of the field that carries the session token. -/
  sessionField : String
  sessionToken : Option String := none
  deriving DecidableEq, Repr, Inhabited

def Settings.server (s : Settings) : Server :=
  ⟨s.serverUrl, s.sessionHeader, s.sessionToken⟩

namespace Server

open Text

/-! ### Addresses -/

def urlText (base : String) (path : String) : String :=
  trimEnd '/' base ++ path

/-- The address of a call, without its parameters. It has to have a host. -/
def callUrl (base : String) (call : Call) : Except Trouble Url :=
  match Url.parse (urlText base call.path) with
  | .error _ => .error .notBuilt
  | .ok url => if url.host.isSome then .ok url else .error (.notBuiltFor url)

/-- How many characters an address may have on its way. -/
def longestUrl : Nat := 65534

/-- Whether a character of a host cannot be sent. -/
def isUnsendable (c : Char) : Bool :=
  c = '"' || c = '\x60' || c = '\x7b' || c = '\x7d'

def isSendable (url : Url) : Bool :=
  url.isHttp && !((url.host.map Url.Host.chars).getD []).any isUnsendable
    && url.chars.length ≤ longestUrl

/-! ### Credentials in the address -/

/-- The text that the characters of a part stand for, if it is one. -/
def decoded? (part : List Char) : Option String :=
  strictText? (Url.percentDecode (part.flatMap Url.utf8Bytes))

/-- The user name and the password in an address, if there is any of them and the name is a text. A
password that is no text is none. -/
def login? (url : Url) : Option (String × Option String) := do
  let name ← decoded? url.userName
  let password := url.password.bind decoded?
  if name.isEmpty && password.isNone then none else some (name, password)

/-- The field that carries a user name and a password. -/
def loginField (name : String) (password : Option String) : String × String :=
  let bytes := (name ++ ":" ++ password.getD "").toUTF8.toList
  ("authorization", "Basic " ++ String.ofList (base64 bytes))

/-! ### Requests -/

def bearer (token : String) : String := "Bearer " ++ token

def sessionName (server : Server) : Except Trouble (Option (String × String)) :=
  match server.sessionToken with
  | none => .ok none
  | some token =>
    match Http.fieldName? server.sessionField with
    | none => .error (.fieldName server.sessionField)
    | some name => .ok (some (name, token))

/-- A request without its session field: credentials go from the address into a field of their own.
-/
def bareRequest (base : String) (call : Call) : Except Trouble Http.Request := do
  let url ← callUrl base call
  let (url, fields) :=
    match login? url with
    | some (name, password) => (url.withoutCredentials, [loginField name password])
    | none => (url, [])
  return { method := call.method, url := url.withParameters call.parameters, fields }

def request (server : Server) (call : Call) : Except Trouble Http.Request := do
  let session ← server.sessionName
  let bare ← bareRequest server.base call
  let request ←
    match session with
    | none => pure bare
    | some (name, token) =>
      if Http.isFieldValue (bearer token) then
        pure { bare with fields := bare.fields ++ [(name, bearer token)] }
      else .error .notBuilt
  if isSendable request.url then return request else .error (.notBuiltFor request.url)

end Server

end FleetConsole
