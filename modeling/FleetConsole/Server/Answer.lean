import FleetConsole.Http.Status
import FleetConsole.Json.Record
import FleetConsole.Server.Exchange

/-!
# Answers of the server

A response that is no success is a failure whose message is meant for the operator: the message in
the body, or else the body as text, or else what the status means. A success has to be complete and
of the form that the call asks for. A dump is any body; its name is in a field, or made from the
machine.
-/

namespace FleetConsole.Server

open Text Json

/-! ### Failures -/

def bodyMessage? (body : String) : Option String :=
  match Read.document (Read.soleText "message" Read.depthLimit) body with
  | .ok message => some message
  | .error _ =>
    let message := trim body
    if message.isEmpty then none else some message

def failureMessage (status : Nat) (body : String) : String :=
  match bodyMessage? body with
  | some message => message
  | none => (Http.reason? status).getD ("request failed with status " ++ natText status)

/-- The failure that a response is. Of a body that broke off nothing is known. -/
def responseFailure (response : Http.Response) : Failure :=
  let body := if response.complete then lenientText response.body else ""
  .server response.status (failureMessage response.status body)

/-! ### Successes -/

/-- What stands in the text of a body for bytes that are not UTF-8: an escape for half a pair. A
string that is kept may not have it, and one that is passed over may; elsewhere it is malformed, as
the bytes are. The letters around it keep it from what stands there. -/
def misfit : List Char := "x\\ud800x".toList

def decode (read : Nat → Reader α) (body : List UInt8) : Except Trouble α :=
  (Read.document (read Read.depthLimit) (String.ofList (charsWith misfit body))).mapError fun _ =>
    .notDecoded

/-- How the part of a field that names a file begins. -/
def fileNameStart : String := "filename="

/-- The file name in the value of a field: the first part that has one counts, without the quotes
around it. -/
def attachmentName? (value : List Char) : Option String :=
  let parts := (splitChars (· = ';') value).map trimChars
  match parts.findSome? (afterStart? fileNameStart.toList) with
  | none => none
  | some name =>
    let name := dropEndWhile (· = '"') (name.dropWhile (· = '"'))
    if name.isEmpty then none else some (String.ofList name)

def offeredName (machine : Int) (response : Http.Response) : String :=
  (((response.field? "content-disposition").bind Http.visibleText?).bind attachmentName?).getD
    (Dump.defaultName machine)

def readBody (response : Http.Response) : (call : Call) → Except Trouble call.Answer
  | .list _ => decode Page.read response.body
  | .token => decode (Read.soleText "token") response.body
  | .regenerate => decode (Read.soleText "token") response.body
  | .dump machine => .ok ⟨machine, offeredName machine response, response.body⟩

def readResponse (call : Call) (response : Http.Response) : Except Failure call.Answer :=
  if Http.isSuccess response.status then
    if response.complete then (readBody response call).mapError Trouble.failure
    else .error Trouble.notDecoded.failure
  else .error (responseFailure response)

def readResult (call : Call) : Except Trouble Http.Response → Except Failure call.Answer
  | .error trouble => .error trouble.failure
  | .ok response => readResponse call response

/-- A call, whose request is exchanged for a response. -/
def ask [Monad m] (exchange : Http.Request → m (Except Trouble Http.Response)) (server : Server)
    (call : Call) : m (Except Failure call.Answer) :=
  match server.request call with
  | .error trouble => pure (.error trouble.failure)
  | .ok request => do return readResult call (← exchange request)

end FleetConsole.Server
