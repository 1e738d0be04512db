import FleetConsole.Token.Panel
import FleetConsole.Notification

/-!
# Operating the installation instruction

The desk keeps the panel and the requests that wait for an answer. Requests are numbered in the
order in which they were issued; a fetch also carries the number of the attempt it belongs to.
-/

namespace FleetConsole.Token

/-- What a token is asked for: to be shown, by an attempt, or to be replaced. -/
inductive Purpose where
  | fetch (attempt : Nat)
  | regenerate
  deriving DecidableEq, Repr, Inhabited

/-- What was being done when a request failed. -/
def Purpose.failureSummary : Purpose → String
  | .fetch _ => "Cannot get server token"
  | .regenerate => "Cannot regenerate server token"

structure Request where
  serial : Nat
  purpose : Purpose
  deriving DecidableEq, Repr, Inhabited

/-- The panel and the open requests, oldest first. -/
structure Desk where
  panel : Panel := {}
  /-- How many requests have been issued. -/
  issued : Nat := 0
  pending : List Request := []
  deriving DecidableEq, Repr, Inhabited

namespace Desk

def request (desk : Desk) (purpose : Purpose) : Desk × Request :=
  let request : Request := ⟨desk.issued + 1, purpose⟩
  ({ desk with issued := desk.issued + 1, pending := desk.pending ++ [request] }, request)

/-- The instruction is opened: a fetch, unless it is open or under way. -/
def show? (desk : Desk) : Option (Desk × Request) := do
  let panel ← desk.panel.beginShow?
  return { desk with panel }.request (.fetch panel.attempts)

/-- The token is replaced: a regeneration, if the instruction is open and idle. -/
def regenerate? (desk : Desk) : Option (Desk × Request) := do
  let panel ← desk.panel.beginRegenerate?
  return { desk with panel }.request .regenerate

/-- The instruction is closed, if it was not. -/
def close? (desk : Desk) : Option Desk := do
  let panel ← desk.panel.close?
  return { desk with panel }

def open? (desk : Desk) (serial : Nat) : Option Request :=
  desk.pending.find? fun request => request.serial = serial

/-- The answer to an open request: the new state, whether the instruction was published, and the
failure to report. -/
def answer (desk : Desk) (request : Request) (answer : Except Failure String) :
    Desk × Bool × Option Failure :=
  let outcome :=
    match request.purpose with
    | .fetch attempt => desk.panel.completeShow attempt answer
    | .regenerate => desk.panel.completeRegenerate answer
  let pending := desk.pending.filter fun other => other.serial ≠ request.serial
  ({ desk with panel := outcome.panel, pending }, outcome.published, outcome.failure)

end Desk

end FleetConsole.Token
