import FleetConsole.Listing.Selection
import FleetConsole.Listing.Tracker
import FleetConsole.Notification

/-!
# Operating the listing

The desk joins the selection with the tracker and keeps the requests that wait for an answer. An
operation that changes the selection issues its requests at once, the count before the page, and is
finished when all of them are answered. An answer that comes too late is forgotten, whether it is a
page or a failure; a failure in time is reported and leaves the listing as it was.
-/

namespace FleetConsole.Listing

structure Request where
  part : Part
  tag : Nat
  query : Query
  /-- The tag of the page request of the same operation. -/
  operation : Nat
  deriving DecidableEq, Repr, Inhabited

/-- The selection, the listing and the open requests, oldest first. -/
structure Desk where
  selection : Selection
  tracker : Tracker := {}
  pending : List Request := []
  deriving Repr, Inhabited

/-- What an answer brings about beside the new state of the desk. -/
structure Outcome where
  desk : Desk
  /-- Whether the listing was replaced. -/
  published : Bool
  notification : Option Notification
  deriving Repr, Inhabited

/-- What was being done when a request for a part failed. -/
def Part.failureSummary : Part → String
  | .page => "Cannot get machines list"
  | .count => "Cannot get unauthorized machines count"

namespace Desk

/-- A desk with nothing selected or requested yet. -/
def initial (limit : Nat) (text : Option String) : Desk :=
  { selection := Selection.initial limit text }

/-- The requests that go out after a change of the selection: an optional count and the page. -/
def request (desk : Desk) (selection : Selection) (count : Option Query) : Desk × List Request :=
  match count with
  | none =>
    let tracker := desk.tracker.issue .page
    let page : Request := ⟨.page, tracker.issued, selection.query, tracker.issued⟩
    (⟨selection, tracker, desk.pending ++ [page]⟩, [page])
  | some query =>
    let counted := desk.tracker.issue .count
    let tracker := counted.issue .page
    let count : Request := ⟨.count, counted.issued, query, tracker.issued⟩
    let page : Request := ⟨.page, tracker.issued, selection.query, tracker.issued⟩
    (⟨selection, tracker, desk.pending ++ [count, page]⟩, [count, page])

def setView (desk : Desk) (view : View) : Desk × List Request :=
  desk.request (desk.selection.select view) (desk.selection.probe? view)

def setPage (desk : Desk) (offset limit : Nat) : Desk × List Request :=
  desk.request (desk.selection.page offset limit) none

def setFilter (desk : Desk) (text : Option String) : Desk × List Request :=
  desk.request (desk.selection.filter text) none

def open? (desk : Desk) (tag : Nat) : Option Request :=
  desk.pending.find? fun request => request.tag = tag

def isWaiting (desk : Desk) (operation : Nat) : Bool :=
  desk.pending.any fun request => request.operation = operation

def answer (desk : Desk) (request : Request) (answer : Except Failure Page) : Outcome :=
  let desk := { desk with pending := desk.pending.filter fun other => other.tag ≠ request.tag }
  match answer with
  | .ok page =>
    match desk.tracker.accept? request.part request.tag page with
    | some tracker => ⟨{ desk with tracker }, true, none⟩
    | none => ⟨desk, false, none⟩
  | .error failure =>
    if desk.tracker.isCurrent request.part request.tag then
      ⟨desk, false, some (Notification.ofFailure request.part.failureSummary failure)⟩
    else ⟨desk, false, none⟩

end Desk

end FleetConsole.Listing
