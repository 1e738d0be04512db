import FleetConsole.Dump.Name
import FleetConsole.Notification

/-!
# Asking for dumps

The desk numbers the requests for dumps and keeps those that wait for an answer. Dumps do not get in
each other's way, so there is no state beside them. A dump that arrives is handed over to be stored,
which takes its time as the request did.
-/

namespace FleetConsole.Dump

structure Request where
  serial : Nat
  machine : Int
  deriving DecidableEq, Repr, Inhabited

/-- A dump that came in answer to the request with a number, and has to be stored. -/
structure Arrival where
  serial : Nat
  artifact : Artifact
  deriving DecidableEq, Repr, Inhabited

/-- What was being done when a dump failed. -/
def failureSummary : String := "Cannot download machine dump"

/-- What is reported of a download that is over, with the path of the dump or without it. -/
def report : Except Failure String → List Notification
  | .ok _ => []
  | .error failure => [Notification.ofFailure failureSummary failure]

/-- The open requests, oldest first. -/
structure Desk where
  issued : Nat := 0
  pending : List Request := []
  deriving DecidableEq, Repr, Inhabited

namespace Desk

def request (desk : Desk) (machine : Int) : Desk × Request :=
  let request : Request := ⟨desk.issued + 1, machine⟩
  (⟨desk.issued + 1, desk.pending ++ [request]⟩, request)

def open? (desk : Desk) (serial : Nat) : Option Request :=
  desk.pending.find? fun request => request.serial = serial

def settle (desk : Desk) (request : Request) : Desk :=
  { desk with pending := desk.pending.filter fun other => other.serial ≠ request.serial }

end Desk

end FleetConsole.Dump
