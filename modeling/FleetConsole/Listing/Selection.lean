import FleetConsole.Listing.View
import FleetConsole.Machine.Query

/-!
# What is selected

The selection is the operator's side of the listing: the view, the place and the length of the page,
and the filter. Every change of it asks for one page, by the query that the selection then stands
for. A new view or filter begins at the first page. The first view selected, and every one that
differs from the one before, also asks how many machines are unauthorized.
-/

namespace FleetConsole

structure Selection where
  active : View := .authorized
  offset : Nat := 0
  limit : Nat := Query.defaultLimit
  text : Option String := none
  /-- Whether a view has been selected yet. -/
  selected : Bool := false
  deriving DecidableEq, Repr, Inhabited

namespace Selection

def initial (limit : Nat) (text : Option String) : Selection :=
  { limit, text := Query.normalize text }

def query (s : Selection) : Query :=
  ⟨s.offset, s.limit, s.text, some s.active.isAuthorized⟩

/-- The query for the number of unauthorized machines that goes with the selection of a view. -/
def probe? (s : Selection) (view : View) : Option Query :=
  if !s.selected || s.active ≠ view then some Query.probe else none

/-- Another view, or the same one again. -/
def select (s : Selection) (view : View) : Selection :=
  { s with active := view, selected := true, offset := 0 }

def page (s : Selection) (offset limit : Nat) : Selection :=
  { s with offset, limit }

def filter (s : Selection) (text : Option String) : Selection :=
  { s with text := Query.normalize text, offset := 0 }

end Selection

end FleetConsole
