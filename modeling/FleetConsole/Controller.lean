import FleetConsole.Dump.Desk
import FleetConsole.Gauge
import FleetConsole.Listing.Desk
import FleetConsole.Token.Desk

/-!
# The controller

The controller is the listing, the installation instruction and the dumps side by side, with one
gauge for the requests of all three. It is driven by events: an operation of the operator, the
answer to an open request, or the end of storing a dump that arrived. Requests may be answered in
any order, with other operations in between, and an answer is just another event.

A download lets go of the gauge when it is over, so it holds the gauge while its dump is stored.

An event changes one of the three parts only. What it brings about beside the new state is collected
in `Effects`.
-/

namespace FleetConsole

/-- A request of one of the three parts. -/
inductive Request where
  | list (request : Listing.Request)
  | token (request : Token.Request)
  | dump (request : Dump.Request)
  deriving DecidableEq, Repr, Inhabited

/-- An operation that waits for answers, named by what its part calls it. -/
inductive Operation where
  | list (tag : Nat)
  | token (serial : Nat)
  | dump (serial : Nat)
  deriving DecidableEq, Repr, Inhabited

def Request.operation : Request → Operation
  | .list request => .list request.operation
  | .token request => .token request.serial
  | .dump request => .dump request.serial

/-- What became of an operation. -/
inductive Progress where
  /-- The event is not about an operation that could wait, or leaves the operation waiting. -/
  | none
  /-- The operation was over without a request. -/
  | immediate
  /-- The operation was begun and waits. -/
  | waiting (operation : Operation)
  /-- The operation is over; a dump that was stored has a path. -/
  | finished (operation : Operation) (path : Option String)
  deriving DecidableEq, Repr, Inhabited

/-- The displays that were published anew, be it with an equal value. -/
structure Published where
  listing : Bool := false
  token : Bool := false
  loading : Bool := false
  deriving DecidableEq, Repr, Inhabited

structure Effects where
  /-- The requests sent, in order. -/
  requests : List Request := []
  /-- The dumps handed over to be stored. -/
  arrivals : List Dump.Arrival := []
  notifications : List Notification := []
  published : Published := {}
  progress : Progress := .none
  deriving DecidableEq, Repr, Inhabited

structure Setup where
  pageSize : Nat := Query.defaultLimit
  text : Option String := none
  deriving DecidableEq, Repr, Inhabited

/-- The three parts and the gauge. -/
structure Controller where
  listing : Listing.Desk
  token : Token.Desk := {}
  dumps : Dump.Desk := {}
  /-- The dumps that arrived and are being stored, in the order in which they arrived. -/
  storing : List Dump.Arrival := []
  gauge : Gauge := {}
  deriving Repr, Inhabited

namespace Controller

/-- An operation, the answer to an open request, or the end of storing a dump. -/
inductive Event where
  | setView (view : View)
  | setPage (offset limit : Nat)
  | setFilter (text : Option String)
  | showToken
  | regenerateToken
  | closeToken
  | downloadDump (machine : Int)
  | listAnswered (tag : Nat) (answer : Except Failure Page)
  | tokenAnswered (serial : Nat) (answer : Except Failure String)
  | dumpAnswered (serial : Nat) (answer : Except Failure Dump.Artifact)
  | dumpStored (serial : Nat) (result : Except Failure String)

/-- What was being done when a query was refused. -/
def invalidQuerySummary : String := "Invalid machines query"

/-- A controller that has not done anything yet, if its page size is valid. -/
def initial (setup : Setup) : Except Failure Controller := do
  Query.checkLimit setup.pageSize
  return { listing := Listing.Desk.initial setup.pageSize setup.text }

/-- An operation that is over without a request, and perhaps a report of why. -/
def immediate (c : Controller) (notifications : List Notification) : Controller × Effects :=
  (c, { notifications, progress := .immediate })

/-- The listing after one of its operations, with the requests that go out. -/
def listRequested (c : Controller) (step : Listing.Desk × List Listing.Request) :
    Controller × Effects :=
  let requests := step.2.map Request.list
  ({ c with listing := step.1, gauge := step.2.foldl (fun gauge _ => gauge.start) c.gauge },
    { requests, published := { loading := true }
      progress := .waiting (.list step.1.tracker.issued) })

/-- The instruction after one of its operations, with the request that goes out. -/
def tokenRequested (c : Controller) : Option (Token.Desk × Token.Request) → Controller × Effects
  | none => c.immediate []
  | some (token, request) =>
    ({ c with token, gauge := c.gauge.start },
      { requests := [.token request], published := { token := true, loading := true }
        progress := .waiting (.token request.serial) })

def arrival? (c : Controller) (serial : Nat) : Option Dump.Arrival :=
  c.storing.find? fun arrival => arrival.serial = serial

/-- A download is over, and its guard lets go of the gauge. -/
def downloaded (c : Controller) (serial : Nat) (result : Except Failure String) :
    Controller × Effects :=
  ({ c with gauge := c.gauge.finish },
    { notifications := Dump.report result, published := { loading := true }
      progress := .finished (.dump serial) result.toOption })

/-- What comes in answer to the request for a dump: a dump is handed over to be stored, and without
one the download is over. -/
def received (c : Controller) (serial : Nat) :
    Except Failure Dump.Artifact → Controller × Effects
  | .ok artifact =>
    ({ c with storing := c.storing ++ [⟨serial, artifact⟩] }, { arrivals := [⟨serial, artifact⟩] })
  | .error failure => c.downloaded serial (.error failure)

/-- An operation of the operator, an answer, or the end of storing a dump. An answer to a request
that is not open changes nothing, and neither does the end of storing what is not being stored. -/
def step (c : Controller) : Event → Controller × Effects
  | .setView view => c.listRequested (c.listing.setView view)
  | .setPage offset limit =>
    match Query.checkLimit limit with
    | .ok _ => c.listRequested (c.listing.setPage offset limit)
    | .error failure => c.immediate [Notification.ofFailure invalidQuerySummary failure]
  | .setFilter text => c.listRequested (c.listing.setFilter text)
  | .showToken => c.tokenRequested c.token.show?
  | .regenerateToken => c.tokenRequested c.token.regenerate?
  | .closeToken =>
    match c.token.close? with
    | some token => ({ c with token }, { published := { token := true } })
    | none => (c, {})
  | .downloadDump machine =>
    if (c.listing.tracker.listing.find? machine).isSome then
      let (dumps, request) := c.dumps.request machine
      ({ c with dumps, gauge := c.gauge.start },
        { requests := [.dump request], published := { loading := true }
          progress := .waiting (.dump request.serial) })
    else c.immediate [Notification.ofFailure Dump.failureSummary (.unknownMachine machine)]
  | .listAnswered tag answer =>
    match c.listing.open? tag with
    | none => (c, {})
    | some request =>
      let outcome := c.listing.answer request answer
      let progress : Progress :=
        if outcome.desk.isWaiting request.operation then .none
        else .finished (.list request.operation) none
      ({ c with listing := outcome.desk, gauge := c.gauge.finish },
        { notifications := outcome.notification.toList
          published := { listing := outcome.published, loading := true }
          progress })
  | .tokenAnswered serial answer =>
    match c.token.open? serial with
    | none => (c, {})
    | some request =>
      let (token, published, failure) := c.token.answer request answer
      let report := failure.map (Notification.ofFailure request.purpose.failureSummary)
      ({ c with token, gauge := c.gauge.finish },
        { notifications := report.toList
          published := { token := published, loading := true }
          progress := .finished (.token serial) none })
  | .dumpAnswered serial answer =>
    match c.dumps.open? serial with
    | none => (c, {})
    | some request =>
      { c with dumps := c.dumps.settle request }.received serial answer
  | .dumpStored serial result =>
    match c.arrival? serial with
    | none => (c, {})
    | some _ =>
      let storing := c.storing.filter fun other => other.serial ≠ serial
      { c with storing }.downloaded serial result

def machines (c : Controller) : Listing := c.listing.tracker.listing

def instruction (c : Controller) : Token.Instruction := c.token.panel.instruction

def activeView (c : Controller) : View := c.listing.selection.active

def viewChoices (c : Controller) : List View.Choice :=
  View.choices c.machines.unauthorizedTotal

/-! ### Runs -/

/-- The state after events, and what each of them brought about. -/
def run (c : Controller) : List Event → Controller × List Effects
  | [] => (c, [])
  | event :: events =>
    let (next, effects) := c.step event
    let (last, later) := run next events
    (last, effects :: later)

end Controller

end FleetConsole
