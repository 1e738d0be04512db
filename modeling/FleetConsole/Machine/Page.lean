import FleetConsole.Machine.Basic

/-!
# Pages of machines

The server answers a query with one page: the machines at the queried place, and how many machines
match the query on all pages together. Both parts may be left out.
-/

namespace FleetConsole

open Json Json.Read

structure Page where
  /-- The machines in the order of the server. -/
  items : List Machine := []
  /-- How many machines match on all pages together. -/
  total : Nat := 0
  deriving DecidableEq, Repr, Inhabited

namespace Page

structure Draft where
  items : Option (List Machine) := none
  total : Option Nat := none

def Draft.toPage (draft : Draft) : Page :=
  ⟨draft.items.getD [], draft.total.getD 0⟩

def readField (depth : Nat) (name : String) (draft : Draft) : Reader Draft :=
  match name with
  | "items" =>
    once draft.items (list depth Machine.read) fun x => { draft with items := some x }
  | "total" => once draft.total nat64 fun x => { draft with total := some x }
  | _ => ignored draft

/-- The parts of a page in order. -/
def readItems (depth : Nat) : Reader Page := fun cs => do
  let (items, rest) ← nextItem true (list depth Machine.read) cs
  match items with
  | none => return ({}, rest)
  | some items =>
    let (total, rest) ← nextItem false nat64 rest
    return (⟨items, total.getD 0⟩, rest)

/-- A page, with room for `depth` containers, itself included. -/
def read (depth : Nat) : Reader Page :=
  let fields (depth : Nat) : Reader Page := fun cs => do
    let (draft, rest) ← members (readField depth) {} cs
    return (draft.toPage, rest)
  record depth fields readItems

def toJson (page : Page) : Json :=
  .object [("items", .array (page.items.map Machine.toJson)), ("total", Json.ofNat page.total)]

end Page

end FleetConsole
