import FleetConsole.Failure
import FleetConsole.Json.Write
import FleetConsole.Text.Blank

/-!
# Queries

A query asks for one page of machines: from which machine on, how many at most, and which machines.
A page has between one and a hundred machines. A filter text is kept without the blanks around it,
and a blank one is none.
-/

namespace FleetConsole

structure Query where
  /-- How many matching machines come before the page. -/
  offset : Nat
  /-- How many machines the page has at most. -/
  limit : Nat
  text : Option String := none
  /-- Whether the machines are to be authorized ones, if that matters. -/
  authorized : Option Bool := none
  deriving DecidableEq, Repr, Inhabited

namespace Query

open Text

def defaultLimit : Nat := 10

/-- How many machines a page can have. -/
def greatestLimit : Nat := 100

/-- Whether a page can have at most that many machines. -/
def validLimit (limit : Nat) : Bool :=
  1 ≤ limit && limit ≤ greatestLimit

def limitFailure : Failure :=
  .invalidQuery ("limit must be between 1 and " ++ natText greatestLimit)

def checkLimit (limit : Nat) : Except Failure Unit :=
  if validLimit limit then .ok () else .error limitFailure

def check (query : Query) : Except Failure Unit :=
  checkLimit query.limit

/-- A filter text without the blanks around it, if anything is left. -/
def normalize (text : Option String) : Option String :=
  (text.map trim).filter fun s => !s.isEmpty

/-- The query that counts the unauthorized machines. There is no request for the number alone, so it
asks for a page of one machine, of which only the total is used. -/
def probe : Query := ⟨0, 1, none, some false⟩

/-- The fields of a query by name, without those that are absent. -/
def toFields (query : Query) : List (String × Json) :=
  [("start", Json.ofNat query.offset), ("limit", Json.ofNat query.limit)]
    ++ (query.text.map fun s => ("text", Json.text s)).toList
    ++ (query.authorized.map fun b => ("authorized", Json.bool b)).toList

def toJson (query : Query) : Json := .object query.toFields

end Query

end FleetConsole
