import FleetConsole.Proofs.Controller.Parts
import FleetConsole.Proofs.Listing.Selection
import FleetConsole.Proofs.Token.Fetch

/-!
# What holds of a controller in every run

The invariants of the listing and of the instruction, for a controller with the histories of the
two. They are proved of the parts and hold of the controller since it runs its parts; what is proved
of controllers goes from here.
-/

namespace FleetConsole.Controller

structure Coherent (c : Controller) (listed : Listing.History) (instructed : Token.History) :
    Prop where
  listTallies : Listing.exchange.Tallies listed c.listing
  agrees : Listing.Agrees c.listing.tracker listed
  selected : Listing.Selected c.listing.selection listed
  tokenTallies : Token.exchange.Tallies instructed c.token
  orderly : Token.Orderly c.token instructed
  knowsLast : Token.KnowsLast c.token instructed

theorem coherent_run {setup : Setup} {start : Controller} (hstart : initial setup = .ok start)
    (events : List Event) :
    Coherent (start.run events).1 (start.listed events) (start.instructed events) := by
  have hlisting : start.listing = Listing.Desk.initial setup.pageSize setup.text := by
    rw [initial_eq_ok hstart]
  have htoken : start.token = {} := by rw [initial_eq_ok hstart]
  constructor
  case listTallies =>
    rw [listed, run_listing, hlisting]
    exact Listing.exchange.tallies_run rfl _
  case agrees =>
    rw [listed, run_listing, hlisting]
    exact Listing.agrees_run _ _ _
  case selected =>
    rw [listed, run_listing, hlisting]
    exact Listing.selected_run _ _ _
  case tokenTallies =>
    rw [instructed, run_token, htoken]
    exact Token.exchange.tallies_run rfl _
  case orderly =>
    rw [instructed, run_token, htoken]
    exact Token.orderly_run _
  case knowsLast =>
    rw [instructed, run_token, htoken]
    exact Token.knowsLast_run _

namespace Coherent

variable {c : Controller} {listed : Listing.History} {instructed : Token.History}

/-- The tracker knows of an open request whether it is the one sent last for its part. -/
theorem latest_iff (hcoherent : Coherent c listed instructed) {tag : Nat}
    {request : Listing.Request} (hopen : c.listing.open? tag = some request) :
    c.listing.tracker.latest request.part = some request.tag ↔
      Listing.latest? request.part listed = some request := by
  refine hcoherent.agrees.latest_iff hcoherent.listTallies.sound ?_
  exact ((hcoherent.listTallies.mem_pending request).1 (List.mem_of_find?_eq_some hopen)).1

/-- The panel knows of an open fetch whether it is the one sent last. -/
theorem lastFetch_iff (hcoherent : Coherent c listed instructed) {serial : Nat}
    {request : Token.Request} (hopen : c.token.open? serial = some request) :
    request.purpose = .fetch c.token.panel.attempts ↔
      Token.lastFetch? instructed = some request := by
  refine (hcoherent.knowsLast request ?_).symm
  exact ((hcoherent.tokenTallies.mem_pending request).1 (List.mem_of_find?_eq_some hopen)).1

theorem settled (hcoherent : Coherent c listed instructed) (hnone : c.listing.pending = []) :
    ∀ request, ¬ listed.Open request := by
  intro request hopen
  have hpending := (hcoherent.listTallies.mem_pending request).2 hopen
  rw [show Listing.exchange.pending c.listing = [] from hnone] at hpending
  cases hpending

end Coherent

/-- A controller that was set up without options. -/
def fresh : Controller := { listing := Listing.Desk.initial Query.defaultLimit none }

theorem initial_fresh : initial {} = .ok fresh := rfl

end FleetConsole.Controller
