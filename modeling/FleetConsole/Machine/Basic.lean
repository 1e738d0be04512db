import FleetConsole.Json.Equality
import FleetConsole.Json.Record
import FleetConsole.Json.Write
import FleetConsole.Time.Instant

/-!
# Machines

A machine is an agent that the server knows. The console interprets eight of its fields and keeps
all others as they came, so that a machine that was read and written again has lost nothing. A
machine is always an object. Its identifier is required; a field that may be absent may also be
`null`, and is not written when it is absent.
-/

namespace FleetConsole

/-- An agent as the server reports it. -/
structure Machine where
  /-- The identifier that the server assigned. -/
  id : Int
  /-- The address at which the agent listens. -/
  address : String := ""
  agentPort : Nat := 0
  hostname : String := ""
  /-- Whether the machine was admitted to report. -/
  authorized : Bool := false
  agentVersion : Option String := none
  /-- When the server last reached the agent. -/
  lastVisitedAt : Option Instant := none
  /-- The last fault in talking to the agent. -/
  error : Option String := none
  /-- All other fields. -/
  extra : Json.Fields := []
  deriving DecidableEq, Repr, Inhabited

namespace Machine

open Json Json.Read

structure Draft where
  id : Option Int := none
  address : Option String := none
  agentPort : Option Nat := none
  hostname : Option String := none
  authorized : Option Bool := none
  agentVersion : Option (Option String) := none
  lastVisitedAt : Option (Option Instant) := none
  error : Option (Option String) := none
  extra : Json.Fields := []

def readInstant : Reader Instant := fun cs => do
  let (s, rest) ← Read.text cs
  match Instant.ofText? s with
  | some t => return (t, rest)
  | none => .error .mismatch

def readField (depth : Nat) (name : String) (draft : Draft) : Reader Draft :=
  match name with
  | "id" => once draft.id int64 fun x => { draft with id := some x }
  | "address" => once draft.address Read.text fun x => { draft with address := some x }
  | "agentPort" =>
    once draft.agentPort (natural (Nat.pow 2 16 - 1)) fun x => { draft with agentPort := some x }
  | "hostname" => once draft.hostname Read.text fun x => { draft with hostname := some x }
  | "authorized" => once draft.authorized Read.bool fun x => { draft with authorized := some x }
  | "agentVersion" =>
    once draft.agentVersion (nullable Read.text) fun x => { draft with agentVersion := some x }
  | "lastVisitedAt" =>
    once draft.lastVisitedAt (nullable readInstant) fun x => { draft with lastVisitedAt := some x }
  | "error" => once draft.error (nullable Read.text) fun x => { draft with error := some x }
  | name => fun cs =>
    (afterColon (value depth) cs).map fun r =>
      ({ draft with extra := draft.extra.insert name r.1 }, r.2)

def Draft.toMachine (draft : Draft) : Except ReadError Machine := do
  return {
    id := ← required draft.id
    address := draft.address.getD ""
    agentPort := draft.agentPort.getD 0
    hostname := draft.hostname.getD ""
    authorized := draft.authorized.getD false
    agentVersion := draft.agentVersion.join
    lastVisitedAt := draft.lastVisitedAt.join
    error := draft.error.join
    extra := draft.extra }

/-- A machine, with room for `depth` containers, itself included. -/
def read (depth : Nat) : Reader Machine :=
  object depth fun depth cs => do
    let (draft, rest) ← members (readField depth) {} cs
    return (← draft.toMachine, rest)

/-- A field that is written only if it has a value. -/
def optionalField (name : String) : Option String → List (String × Json)
  | none => []
  | some s => [(name, .text s)]

/-- The fields of a machine in the order in which they are written: the known ones, then the others
by name. -/
def toFields (m : Machine) : List (String × Json) :=
  [("id", Json.ofInt m.id), ("address", .text m.address), ("agentPort", Json.ofNat m.agentPort),
    ("hostname", .text m.hostname), ("authorized", .bool m.authorized)]
    ++ optionalField "agentVersion" m.agentVersion
    ++ optionalField "lastVisitedAt" (m.lastVisitedAt.map (Instant.text .exact))
    ++ optionalField "error" m.error
    ++ m.extra

def toJson (m : Machine) : Json := .object m.toFields

end Machine

end FleetConsole
