import FleetConsole.Listing.Desk
import FleetConsole.Proofs.Exchange

/-!
# The steps of the listing

The desk of the listing as an exchange. Every operation changes the selection and sends a page
request, some of them a count request before it (`Desk.Requested`). An answer changes the listing or
nothing: which one is decided by the tracker alone (`Tracker.take`).
-/

namespace FleetConsole.Listing

inductive Operation where
  | setView (view : View)
  | setPage (offset limit : Nat)
  | setFilter (text : Option String)
  deriving DecidableEq, Repr

/-- What happened to the listing, the latest first. -/
abbrev History := FleetConsole.History Operation Request (Except Failure Page)

namespace Tracker

/-- The tracker after an answer. -/
def take (t : Tracker) (request : Request) : Except Failure Page → Tracker
  | .ok page => (t.accept? request.part request.tag page).getD t
  | .error _ => t

theorem isCurrent_iff (t : Tracker) (part : Part) (tag : Nat) :
    t.isCurrent part tag = true ↔ t.latest part = some tag := by
  simp [isCurrent]

theorem latest_issue (t : Tracker) (part other : Part) :
    (t.issue part).latest other = if part = other then some (t.issued + 1) else t.latest other := by
  cases part <;> cases other <;> rfl

@[simp] theorem issued_issue (t : Tracker) (part : Part) :
    (t.issue part).issued = t.issued + 1 := by
  cases part <;> rfl

@[simp] theorem listing_issue (t : Tracker) (part : Part) :
    (t.issue part).listing = t.listing := by
  cases part <;> rfl

theorem take_of_current {t : Tracker} {request : Request}
    (hcurrent : t.latest request.part = some request.tag) (page : Page) :
    t.take request (.ok page) = { t with listing := t.listing.replace request.part page } := by
  simp [take, accept?, isCurrent, hcurrent]

theorem take_of_late {t : Tracker} {request : Request}
    (hlate : t.latest request.part ≠ some request.tag) (given : Except Failure Page) :
    t.take request given = t := by
  cases given <;> simp [take, accept?, isCurrent, hlate]

@[simp] theorem take_error (t : Tracker) (request : Request) (failure : Failure) :
    t.take request (.error failure) = t := rfl

@[simp] theorem issued_take (t : Tracker) (request : Request) (given : Except Failure Page) :
    (t.take request given).issued = t.issued := by
  by_cases hcurrent : t.latest request.part = some request.tag
  · cases given with
    | ok page => rw [take_of_current hcurrent]
    | error failure => rfl
  · rw [take_of_late hcurrent]

@[simp] theorem latest_take (t : Tracker) (request : Request) (given : Except Failure Page)
    (part : Part) : (t.take request given).latest part = t.latest part := by
  by_cases hcurrent : t.latest request.part = some request.tag
  · cases given with
    | ok page => rw [take_of_current hcurrent]; cases part <;> rfl
    | error failure => rfl
  · rw [take_of_late hcurrent]

end Tracker

namespace Desk

/-- An operation, with the requests that it sends. -/
def call (desk : Desk) : Operation → Desk × List Request
  | .setView view => desk.setView view
  | .setPage offset limit => desk.setPage offset limit
  | .setFilter text => desk.setFilter text

/-- Everything that an operation can do to the tracker, with the requests that it sends. -/
inductive Requested (t : Tracker) : Tracker → List Request → Prop
  | page (request : Request) (hpart : request.part = .page) (htag : request.tag = t.issued + 1) :
      Requested t (t.issue .page) [request]
  | both (count page : Request) (hcount : count.part = .count) (hpage : page.part = .page)
      (htag : count.tag = t.issued + 1) (htag' : page.tag = t.issued + 2) :
      Requested t ((t.issue .count).issue .page) [count, page]

theorem requested_request (desk : Desk) (selection : Selection) (count : Option Query) :
    Requested desk.tracker (desk.request selection count).1.tracker
        (desk.request selection count).2 ∧
      (desk.request selection count).1.pending =
        desk.pending ++ (desk.request selection count).2 := by
  cases count with
  | none => exact ⟨.page _ rfl rfl, rfl⟩
  | some query => exact ⟨.both _ _ rfl rfl rfl rfl, rfl⟩

theorem requested (desk : Desk) (operation : Operation) :
    Requested desk.tracker (desk.call operation).1.tracker (desk.call operation).2 ∧
      (desk.call operation).1.pending = desk.pending ++ (desk.call operation).2 := by
  cases operation <;> exact desk.requested_request _ _

theorem Requested.tags {t next : Tracker} {requests : List Request}
    (hrequested : Requested t next requests) :
    requests.map Request.tag = List.range' (t.issued + 1) requests.length ∧
      next.issued = t.issued + requests.length := by
  cases hrequested with
  | page request hpart htag => simp [htag]
  | both count page hcount hpage htag htag' => simp [htag, htag', List.range'_succ]

theorem listing_call (desk : Desk) (operation : Operation) :
    (desk.call operation).1.tracker.listing = desk.tracker.listing := by
  have hrequested := (desk.requested operation).1
  generalize (desk.call operation).1.tracker = next at hrequested ⊢
  generalize (desk.call operation).2 = requests at hrequested
  cases hrequested with
  | page => exact Tracker.listing_issue ..
  | both => rw [Tracker.listing_issue, Tracker.listing_issue]

theorem answer_desk (desk : Desk) (request : Request) (given : Except Failure Page) :
    (desk.answer request given).desk = { desk with
      tracker := desk.tracker.take request given
      pending := desk.pending.filter fun other => other.tag ≠ request.tag } := by
  cases given with
  | ok page =>
    by_cases hcurrent : desk.tracker.isCurrent request.part request.tag = true <;>
      simp [answer, Tracker.take, Tracker.accept?, hcurrent]
  | error failure =>
    by_cases hcurrent : desk.tracker.isCurrent request.part request.tag = true <;>
      simp [answer, hcurrent]

/-- The listing is published when a page arrives for the request issued last. -/
theorem answer_published (desk : Desk) (request : Request) (given : Except Failure Page) :
    (desk.answer request given).published = true ↔
      (∃ page, given = .ok page) ∧ desk.tracker.latest request.part = some request.tag := by
  rw [← Tracker.isCurrent_iff]
  cases given with
  | ok page =>
    by_cases hcurrent : desk.tracker.isCurrent request.part request.tag = true <;>
      simp [answer, Tracker.accept?, hcurrent]
  | error failure =>
    by_cases hcurrent : desk.tracker.isCurrent request.part request.tag = true <;>
      simp [answer, hcurrent]

theorem answer_error_published (desk : Desk) (request : Request) (failure : Failure) :
    (desk.answer request (.error failure)).published = false := by
  rw [← Bool.not_eq_true, answer_published]
  rintro ⟨⟨page, hpage⟩, -⟩
  cases hpage

theorem answer_ok_notification (desk : Desk) (request : Request) (page : Page) :
    (desk.answer request (.ok page)).notification = none := by
  by_cases hcurrent : desk.tracker.isCurrent request.part request.tag = true <;>
    simp [answer, Tracker.accept?, hcurrent]

/-- A failure is reported when it arrives for the request issued last. -/
theorem answer_error_notification (desk : Desk) (request : Request) (failure : Failure) :
    (desk.answer request (.error failure)).notification =
      if desk.tracker.latest request.part = some request.tag then
        some (Notification.ofFailure request.part.failureSummary failure)
      else none := by
  by_cases hcurrent : desk.tracker.latest request.part = some request.tag <;>
    simp [answer, Tracker.isCurrent, hcurrent]

/-- What comes for a request that is not the one issued last does not matter. -/
theorem answer_of_late {desk : Desk} {request : Request}
    (hlate : desk.tracker.latest request.part ≠ some request.tag)
    (given other : Except Failure Page) :
    desk.answer request given = desk.answer request other := by
  have hdropped : ∀ answer, desk.answer request answer =
      ⟨{ desk with pending := desk.pending.filter fun other => other.tag ≠ request.tag }, false,
        none⟩ := by
    intro answer
    cases answer <;> simp [Desk.answer, Tracker.accept?, Tracker.isCurrent, hlate]
  rw [hdropped given, hdropped other]

end Desk

def exchange : Exchange Desk Operation Request (Except Failure Page) where
  number := Request.tag
  issued desk := desk.tracker.issued
  pending := Desk.pending
  call := Desk.call
  answer desk request given := (desk.answer request given).desk
  number_call desk operation := (desk.requested operation).1.tags.1
  issued_call desk operation := (desk.requested operation).1.tags.2
  pending_call desk operation := (desk.requested operation).2
  issued_answer desk request given := by rw [Desk.answer_desk, Tracker.issued_take]
  pending_answer desk request given := by rw [Desk.answer_desk]

@[simp] theorem exchange_open? (desk : Desk) (tag : Nat) :
    exchange.open? desk tag = desk.open? tag := rfl

abbrev Event := Exchange.Event Operation (Except Failure Page)

end FleetConsole.Listing
