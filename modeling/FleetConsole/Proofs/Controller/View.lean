import FleetConsole.Proofs.Controller.Coherent

/-!
# The active view and the displayed rows

The view is switched when it is selected, and the rows change when their page comes. A failed page
request is reported and leaves the listing as it was, but the view is not switched back. So once all
answers have come, the rows are those of the active view unless the page request sent last failed
and was for the other view than the page on display.
-/

namespace FleetConsole.Controller

/-- When all answers have come, only a failed page request for the other view can have left the rows
of one view under the other. -/
theorem rows_match_view_iff {setup : Setup} {start : Controller}
    (hstart : initial setup = .ok start) (events : List Event) {request : Listing.Request}
    {page : Page}
    (hshown : (Listing.shown .page (start.listed events)).head? = some (request, page))
    (hsettled : ∀ other, ¬ (start.listed events).Open other) :
    (start.run events).1.machines.Displays .page page ∧
      (request.query.authorized = some (start.run events).1.activeView.isAuthorized ↔
        ¬ ∃ last failure, Listing.latest? .page (start.listed events) = some last ∧
          .answered last (.error failure) ∈ start.listed events ∧
          last.query.authorized ≠ request.query.authorized) := by
  have hcoherent := coherent_run hstart events
  have hsound := hcoherent.listTallies.sound
  obtain ⟨last, hlatest, hlast⟩ := Listing.newest_or_failed hsound hshown hsettled
  have hview : last.query.authorized = some (start.run events).1.activeView.isAuthorized := by
    rw [hcoherent.selected last hlatest]
    rfl
  refine ⟨((hcoherent.agrees.upToDate hsound).newest .page request page hshown).2.2, ?_⟩
  rw [← hview]
  constructor
  · rintro hsame ⟨other, failure, hother, -, hne⟩
    cases hlatest.symm.trans hother
    exact hne hsame.symm
  · intro hnone
    rcases hlast with rfl | ⟨failure, hfailed⟩
    · rfl
    · by_cases hsame : last.query.authorized = request.query.authorized
      · exact hsame.symm
      · exact absurd ⟨last, failure, hlatest, hfailed, hsame⟩ hnone

def authorizedPage : Page := ⟨[{ id := 1, authorized := true }], 1⟩

/-- The authorized machines come on display. -/
def displayed : List Event :=
  [.setView .authorized, .listAnswered 1 (.ok {}), .listAnswered 2 (.ok authorizedPage)]

/-- Another page of them does not come. -/
def failedPage : List Event :=
  displayed ++ [.setPage 10 10, .listAnswered 3 (.error (.server 500 "down"))]

theorem rows_match_view_after_failed_page :
    initial {} = .ok fresh ∧ (∀ other, ¬ (fresh.listed failedPage).Open other) ∧
      (fresh.run failedPage).1.machines.Displays .page authorizedPage ∧
      some true = some (fresh.run failedPage).1.activeView.isAuthorized := by
  have hsettled := (coherent_run initial_fresh failedPage).settled rfl
  obtain ⟨hdisplays, hview⟩ := rows_match_view_iff initial_fresh failedPage rfl hsettled
  refine ⟨initial_fresh, hsettled, hdisplays, hview.2 ?_⟩
  rintro ⟨last, failure, hlatest, -, hne⟩
  cases hlatest
  exact hne rfl

/-- The view is switched, and the page of the other machines does not come. -/
def failedSwitch : List Event :=
  displayed ++ [.setView .unauthorized, .listAnswered 3 (.ok {}),
    .listAnswered 4 (.error (.server 500 "down"))]

/-- The other view is active then, and still no answer to a query for it is on display. -/
theorem rows_left_from_other_view :
    initial {} = .ok fresh ∧ (∀ other, ¬ (fresh.listed failedSwitch).Open other) ∧
      (fresh.run failedSwitch).1.machines.Displays .page authorizedPage ∧
      View.toggleText (fresh.run failedSwitch).1.viewChoices (fresh.run failedSwitch).1.activeView =
        "Authorized  [Unauthorized]" ∧
      ¬ ∃ request page, .answered request (.ok page) ∈ fresh.listed failedSwitch ∧
        (fresh.run failedSwitch).1.machines.Displays .page page ∧
        request.query.authorized = some (fresh.run failedSwitch).1.activeView.isAuthorized := by
  refine ⟨initial_fresh, (coherent_run initial_fresh failedSwitch).settled rfl, ⟨rfl, rfl⟩,
    by decide, ?_⟩
  rintro ⟨request, page, hanswered, ⟨-, htotal⟩, hview⟩
  have hlisted : fresh.listed failedSwitch =
      [.answered ⟨.page, 4, ⟨0, 10, none, some false⟩, 4⟩ (.error (.server 500 "down")),
        .answered ⟨.count, 3, Query.probe, 4⟩ (.ok {}),
        .issued ⟨.page, 4, ⟨0, 10, none, some false⟩, 4⟩, .issued ⟨.count, 3, Query.probe, 4⟩,
        .called (.setView .unauthorized),
        .answered ⟨.page, 2, ⟨0, 10, none, some true⟩, 2⟩ (.ok authorizedPage),
        .answered ⟨.count, 1, Query.probe, 2⟩ (.ok {}),
        .issued ⟨.page, 2, ⟨0, 10, none, some true⟩, 2⟩, .issued ⟨.count, 1, Query.probe, 2⟩,
        .called (.setView .authorized)] := rfl
  simp only [hlisted, List.mem_cons, Happening.answered.injEq, Except.ok.injEq, reduceCtorEq,
    and_false, false_or, or_false, List.not_mem_nil] at hanswered
  rcases hanswered with ⟨-, rfl⟩ | ⟨rfl, -⟩ | ⟨-, rfl⟩
  · exact absurd htotal (by decide)
  · exact absurd hview (by decide)
  · exact absurd htotal (by decide)

end FleetConsole.Controller
