import FleetConsole.Machine.Page

/-!
# The displayed listing and the answers that count

A listing is one page of machines and the number of unauthorized machines, which come from separate
requests. Requests may overtake each other, so each carries a tag, and of every kind of request only
the one issued last may change the listing: an answer to an earlier one is dropped. Tags are
numbered through for both kinds.
-/

namespace FleetConsole

structure Listing where
  /-- The machines in the order of the server. -/
  items : List Machine := []
  /-- How many machines match the query of the page. -/
  total : Nat := 0
  /-- How many machines are unauthorized, whatever view is active. -/
  unauthorizedTotal : Nat := 0
  deriving Repr, Inhabited

namespace Listing

def find? (listing : Listing) (id : Int) : Option Machine :=
  listing.items.find? fun machine => machine.id = id

def toJson (listing : Listing) : Json :=
  .object [("items", .array (listing.items.map Machine.toJson)),
    ("total", Json.ofNat listing.total),
    ("unauthorized_total", Json.ofNat listing.unauthorizedTotal)]

/-- The part of the listing that a request is for: the page, or the number of unauthorized
machines. -/
inductive Part where
  | page
  | count
  deriving DecidableEq, Repr, Inhabited

/-- The listing after an answer for one of its parts. -/
def replace (listing : Listing) : Part → Page → Listing
  | .page, page => { listing with items := page.items, total := page.total }
  | .count, page => { listing with unauthorizedTotal := page.total }

/-- The listing and, for each part, the tag of the request issued last. -/
structure Tracker where
  listing : Listing := {}
  /-- How many tags have been issued. -/
  issued : Nat := 0
  latestPage : Option Nat := none
  latestCount : Option Nat := none
  deriving Repr, Inhabited

namespace Tracker

/-- The tag of the request issued last for a part. -/
def latest (t : Tracker) : Part → Option Nat
  | .page => t.latestPage
  | .count => t.latestCount

/-- A new request for a part. Its tag is the number of tags then issued. -/
def issue (t : Tracker) (part : Part) : Tracker :=
  let tag := t.issued + 1
  match part with
  | .page => { t with issued := tag, latestPage := some tag }
  | .count => { t with issued := tag, latestCount := some tag }

def isCurrent (t : Tracker) (part : Part) (tag : Nat) : Bool :=
  t.latest part = some tag

/-- The listing replaced by an answer, or nothing if the answer came too late. -/
def accept? (t : Tracker) (part : Part) (tag : Nat) (page : Page) : Option Tracker :=
  if t.isCurrent part tag then some { t with listing := t.listing.replace part page } else none

/-- What can be asked of a tracker. An answer is offered for a part and with a tag that the caller
names, whatever the tag was issued for and whether an answer came with it before. -/
inductive Call where
  | issue (part : Part)
  | isCurrent (part : Part) (tag : Nat)
  | offer (part : Part) (tag : Nat) (page : Page)
  deriving Repr, Inhabited

inductive Reply where
  | tag (n : Nat)
  | truth (b : Bool)
  deriving DecidableEq, Repr, Inhabited

/-- What a call brings about: the tracker after it, what it returns, and the listing that everyone
who watches is told of, if there is a new one. -/
structure Effect where
  tracker : Tracker
  reply : Reply
  published : Option Listing := none
  deriving Repr, Inhabited

def perform (t : Tracker) : Call → Effect
  | .issue part =>
    let next := t.issue part
    { tracker := next, reply := .tag next.issued }
  | .isCurrent part tag => { tracker := t, reply := .truth (t.isCurrent part tag) }
  | .offer part tag page =>
    match t.accept? part tag page with
    | some next => { tracker := next, reply := .truth true, published := some next.listing }
    | none => { tracker := t, reply := .truth false }

end Tracker

end Listing

end FleetConsole
