import FleetConsole.Http.Redirect
import FleetConsole.Server.Basic
import FleetConsole.Url.Join

/-!
# Exchanges with the server

A request is sent over a connection, and sent on for as long as the responses say so, but not too
often. What comes back is the response to the last of these requests, whichever it was.
-/

namespace FleetConsole.Server

/-! ### A client -/

/-- The names of fields that are told to no other host. -/
def confidentialNames : List String :=
  ["authorization", "cookie", "cookie2", "proxy-authorization", "www-authenticate"]

def isSamePlace (url other : Url) : Bool :=
  let port (url : Url) : Option Nat := url.port <|> Url.usualPort? url.scheme
  url.host = other.host && port url = port other

/-- The field that says from which address a request is sent on. -/
def refererField? (url next : Url) : Option (String × String) :=
  if next.scheme = "http".toList && url.scheme = "https".toList then none
  else some ("referer", { url.withoutCredentials with fragment := none }.text)

/-- A client that follows addresses that it can send to, and tells others no secrets. -/
def usualClient : Http.Client where
  locate url location := do
    let next ← (url.join (← Text.strictText? location)).toOption
    if next.isHttp && !isSendable next then none else some next
  keepsMethod := false
  fields request next :=
    let kept := request.fields.filter fun field => field.1 ≠ "referer" &&
      (isSamePlace request.url next || !confidentialNames.contains field.1)
    kept ++ (refererField? request.url next).toList

/-! ### Exchanges -/

/-- What comes of a request: the requests that were sent, and the last response. -/
structure Outcome where
  trail : Http.Trail
  result : Except Trouble Http.Response

/-- How many times a request may be sent on. -/
def redirectLimit : Nat := 10

/-- A request over a connection, which takes a request to a host and brings its reply. The request
may be sent on a number of times. -/
def exchange [Monad m] (client : Http.Client) (connection : Http.Request → m Http.Reply) :
    Nat → Http.Request → m Outcome
  | left, request => do
    match ← connection request with
    | none => return ⟨⟨request, []⟩, .error (.notSent request.url)⟩
    | some response =>
      match client.next? request response with
      | none => return ⟨⟨request, []⟩, .ok response⟩
      | some next =>
        match left with
        | 0 => return ⟨⟨request, []⟩, .error (.sentOnTooOften request.url)⟩
        | left + 1 =>
          if next.url.isHttp then
            let outcome ← exchange client connection left next
            return ⟨⟨request, outcome.trail.requests⟩, outcome.result⟩
          else return ⟨⟨request, []⟩, .error (.notBuiltFor next.url)⟩

end FleetConsole.Server
