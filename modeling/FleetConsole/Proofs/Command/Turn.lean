import FleetConsole.Proofs.Command.Task
import FleetConsole.Proofs.Controller.Parts

/-!
# Turning to a page

The commands about machines first turn to a page of them: the number of unauthorized machines and
the first page are asked for together, and a later page after both were answered, also if an answer
was bad. So a world has the same requests in any case (`run_turnTo`). The page is arrived at if all
answers are good; otherwise each bad one is reported once.
-/

namespace FleetConsole

namespace Place

/-- The query for a page of the machines at a place, from some machine on. -/
def page (place : Place) (limit offset : Nat) : Query :=
  ⟨offset, limit, Query.normalize place.text, some place.view.isAuthorized⟩

/-- The queries that lead to a place: the number of unauthorized machines, the first page, and the
page of the place if that is a later one. -/
def queries (place : Place) (limit : Nat) : List Query :=
  [Query.probe, place.page limit 0] ++
    if 0 < place.offset then [place.page limit place.offset] else []

theorem queries_ne_nil (place : Place) (limit : Nat) : place.queries limit ≠ [] :=
  List.cons_ne_nil _ _

theorem two_le_length_queries (place : Place) (limit : Nat) :
    2 ≤ (place.queries limit).length := by
  rw [queries, List.length_append]
  exact Nat.le_add_right 2 _

theorem isSome_authorized {place : Place} {limit : Nat} {query : Query}
    (hquery : query ∈ place.queries limit) : query.authorized.isSome = true := by
  rw [queries, List.mem_append] at hquery
  split at hquery <;> simp only [List.mem_cons, List.not_mem_nil, or_false] at hquery
  · rcases hquery with (rfl | rfl) | rfl <;> rfl
  · rcases hquery with rfl | rfl <;> rfl

end Place

namespace Listing

/-- The listing after an answer to a request for one of its parts. -/
def receive (part : Part) (listing : Listing) : Except Failure Page → Listing
  | .ok page => listing.replace part page
  | .error _ => listing

/-- The listing after the answers to the queries of a place. -/
def ofAnswers : List (Except Failure Page) → Listing
  | [] => {}
  | count :: pages => pages.foldl (receive .page) (receive .count {} count)

theorem foldl_receive_unauthorizedTotal (listing : Listing) (pages : List (Except Failure Page)) :
    (pages.foldl (receive .page) listing).unauthorizedTotal = listing.unauthorizedTotal := by
  induction pages generalizing listing with
  | nil => rfl
  | cons page pages ih =>
    rw [List.foldl_cons, ih]
    cases page <;> rfl

theorem ofAnswers_concat {answers : List (Except Failure Page)} (hsome : answers ≠ [])
    (page : Except Failure Page) :
    ofAnswers (answers ++ [page]) = receive .page (ofAnswers answers) page := by
  cases answers with
  | nil => exact absurd rfl hsome
  | cons count pages => exact List.foldl_append

theorem ofAnswers_of_last {count last : Page} {pages : List (Except Failure Page)}
    (hlast : pages.getLast? = some (.ok last)) :
    ofAnswers (.ok count :: pages) = ⟨last.items, last.total, count.total⟩ := by
  obtain ⟨front, rfl⟩ := List.getLast?_eq_some_iff.1 hlast
  have hcount := foldl_receive_unauthorizedTotal (receive .count {} (.ok count)) front
  rw [ofAnswers, List.foldl_append]
  exact congrArg (Listing.mk last.items last.total) hcount

end Listing

namespace Command

/-! ### What is reported -/

/-- What is reported of an answer to a request for a part of the listing. -/
def report? (part : Listing.Part) : Except Failure Page → Option Notification
  | .ok _ => none
  | .error failure => some (Notification.ofFailure part.failureSummary failure)

/-- What is reported of the answers to the queries of a place. -/
def reports : List (Except Failure Page) → List Notification
  | [] => []
  | count :: pages => (report? .count count).toList ++ pages.filterMap (report? .page)

theorem report?_eq_none {part : Listing.Part} {answer : Except Failure Page} :
    report? part answer = none ↔ ∃ page, answer = .ok page := by
  cases answer <;> simp [report?]

theorem reports_eq_nil {pages : List (Except Failure Page)} :
    reports pages = [] ↔ ∀ answer ∈ pages, ∃ page, answer = .ok page := by
  cases pages with
  | nil => simp [reports]
  | cons count pages =>
    simp only [reports, List.append_eq_nil_iff, Option.toList_eq_nil_iff, List.filterMap_eq_nil_iff,
      report?_eq_none, List.forall_mem_cons]

theorem reports_concat {pages : List (Except Failure Page)} (hsome : pages ≠ [])
    (page : Except Failure Page) :
    reports (pages ++ [page]) = reports pages ++ (report? .page page).toList := by
  cases pages with
  | nil => exact absurd rfl hsome
  | cons count pages =>
    rw [List.cons_append, reports, reports, List.filterMap_append, List.append_assoc,
      List.filterMap_cons]
    cases report? .page page <;> rfl

/-! ### The operations -/

/-- A controller that displays a listing and waits for no answer. The first of its requests was for
the count, the last one for a page. -/
def resting (selection : Selection) (listing : Listing) (issued : Nat) : Controller :=
  { listing := ⟨selection, ⟨listing, issued, some issued, some 1⟩, []⟩ }

theorem machines_resting (selection : Selection) (listing : Listing) (issued : Nat) :
    (resting selection listing issued).machines = listing := rfl

theorem activeView_resting (selection : Selection) (listing : Listing) (issued : Nat) :
    (resting selection listing issued).activeView = selection.active := rfl

/-- The selection of a place. -/
def selected (place : Place) (limit offset : Nat) : Selection :=
  ⟨place.view, offset, limit, Query.normalize place.text, true⟩

/-- A controller that was set up for a place. -/
def unturned (place : Place) (limit : Nat) : Controller :=
  { listing := Listing.Desk.initial limit place.text }

section Answers

variable (place : Place) {limit : Nat} {page : Except Failure Page}

theorem answered_view (limit : Nat) {count : Except Failure Page} {arrived : List Controller.Event}
    (harrived : arrived = [.listAnswered 1 count, .listAnswered 2 page] ∨
      arrived = [.listAnswered 2 page, .listAnswered 1 count]) :
    let begun := (unturned place limit).step (.setView place.view)
    (begun.1.run arrived).1 =
        resting (selected place limit 0) (Listing.ofAnswers [count, page]) 2 ∧
      (errors (begun.2 :: (begun.1.run arrived).2)).Perm (reports [count, page]) := by
  rcases harrived with rfl | rfl
  · cases count <;> cases page <;> exact ⟨rfl, .refl _⟩
  · -- Reports come in the order of the answers, which shows if there are two of them.
    cases count <;> cases page
    case error.error => exact ⟨rfl, .swap _ _ _⟩
    all_goals exact ⟨rfl, .refl _⟩

theorem answered_page (listing : Listing) (hlimit : Query.checkLimit limit = .ok ())
    (offset : Nat) :
    let begun := (resting (selected place limit 0) listing 2).step (.setPage offset limit)
    (begun.1.run [.listAnswered 3 page]).1 =
        resting (selected place limit offset) (Listing.receive .page listing page) 3 ∧
      errors (begun.2 :: (begun.1.run [.listAnswered 3 page]).2) = (report? .page page).toList := by
  simp only [Controller.step, hlimit]
  cases page <;> exact ⟨rfl, rfl⟩

end Answers

/-! ### In a world -/

section Turn

variable (place : Place) (settings : Settings) (dir : String) (w : World) {limit : Nat}

theorem run_view (limit : Nat) :
    let pages := w.pages settings.server [Query.probe, place.page limit 0]
    ∃ effects, (perform (World.services settings) dir (unturned place limit)
        (.setView place.view)).run w =
          ((resting (selected place limit 0) (Listing.ofAnswers pages) 2, effects),
            w.after (settings.server.requests [.list Query.probe, .list (place.page limit 0)])) ∧
      (errors effects).Perm (reports pages) := by
  have hsettled := run_settle_list settings
    [⟨.count, 1, Query.probe, 2⟩, ⟨.page, 2, place.page limit 0, 2⟩] w
  obtain ⟨arrived, harrived, hperformed⟩ := run_perform_answers dir
    (unturned place limit) (.setView place.view) hsettled (by simp [listAnswers, World.pages])
  obtain ⟨hlast, hreported⟩ := answered_view place limit harrived
  rw [hperformed, hlast]
  exact ⟨_, rfl, hreported⟩

theorem run_page (listing : Listing) (hlimit : Query.checkLimit limit = .ok ()) (offset : Nat) :
    let page := w.answer settings.server (.list (place.page limit offset))
    ∃ effects, (perform (World.services settings) dir (resting (selected place limit 0) listing 2)
        (.setPage offset limit)).run w =
          ((resting (selected place limit offset) (Listing.receive .page listing page) 3, effects),
            w.after (settings.server.requests [.list (place.page limit offset)])) ∧
      errors effects = (report? .page page).toList := by
  intro page
  have hsettled := run_settle_list settings [⟨.page, 3, place.page limit offset, 3⟩] w
  have hrequests : ((resting (selected place limit 0) listing 2).step
      (.setPage offset limit)).2.requests =
        List.map Request.list [⟨.page, 3, place.page limit offset, 3⟩] := by
    simp only [Controller.step, hlimit]
    rfl
  rw [← hrequests] at hsettled
  obtain ⟨arrived, harrived, hperformed⟩ :=
    run_perform_answers dir _ _ hsettled (by simp [listAnswers, World.pages])
  have harrived : arrived = [.listAnswered 3 page] := by
    rcases harrived with harrived | harrived <;> exact harrived
  obtain ⟨hlast, hreported⟩ := answered_page place listing hlimit offset
  rw [harrived, hlast] at hperformed
  exact ⟨_, hperformed, hreported⟩

/-- The answers to the queries of a place decide where its operations lead and what they
report. -/
theorem run_operations (hlimit : Query.checkLimit limit = .ok ()) :
    let pages := w.pages settings.server (place.queries limit)
    ∃ offset issued effects, (performAll (World.services settings) dir (unturned place limit)
        (place.operations limit)).run w =
          ((resting (selected place limit offset) (Listing.ofAnswers pages) issued, effects),
            w.after (settings.server.requests ((place.queries limit).map .list))) ∧
      (errors effects).Perm (reports pages) := by
  obtain ⟨effects, hview, hreported⟩ := run_view place settings dir w limit
  rw [Place.operations, Place.queries]
  by_cases hfirst : 0 < place.offset
  · obtain ⟨others, hpage, hlater⟩ := run_page place settings dir
      (w.after (settings.server.requests [.list Query.probe, .list (place.page limit 0)]))
      (Listing.ofAnswers (w.pages settings.server [Query.probe, place.page limit 0]))
      hlimit place.offset
    simp only [hfirst, if_true]
    rw [World.pages_append]
    refine ⟨place.offset, 3, effects ++ others, ?_, ?_⟩
    · rw [run_performAll_cons hview (run_performAll_one hpage), World.after_append,
        ← Server.requests_append]
      exact congrArg (fun listing => ((resting _ listing 3, _), _))
        (Listing.ofAnswers_concat (List.cons_ne_nil _ _) _).symm
    · rw [errors_append, hlater]
      exact (hreported.append_right _).trans
        (.of_eq (reports_concat (List.cons_ne_nil _ _) _).symm)
  · simp only [hfirst, if_false, List.append_nil]
    exact ⟨_, _, _, run_performAll_one hview, hreported⟩

/-- Where the answers to the queries of a place lead: to its page, or to a report of every failure.
-/
inductive Turned (place : Place) (pages : List (Except Failure Page)) :
    Except Problem Controller → Prop
  | arrived {c : Controller} (hpages : ∀ answer ∈ pages, ∃ page, answer = .ok page)
      (hmachines : c.machines = Listing.ofAnswers pages) (hview : c.activeView = place.view)
      (hdumps : c.dumps = {}) (hstoring : c.storing = []) : Turned place pages (.ok c)
  | stopped {notifications : List Notification} (hfailed : reports pages ≠ [])
      (hreported : notifications.Perm (reports pages)) :
      Turned place pages (.error (.reported notifications))

theorem run_turnTo (hlimit : Query.checkLimit (place.pageSize settings) = .ok ()) :
    ∃ result, (turnTo (World.services settings) settings dir place).run.run w =
        (result, w.after (settings.server.requests
          ((place.queries (place.pageSize settings)).map .list))) ∧
      Turned place (w.pages settings.server (place.queries (place.pageSize settings))) result := by
  obtain ⟨offset, issued, effects, hperformed, hreported⟩ :=
    run_operations place settings dir w hlimit
  have hbegun := run_begin ⟨place.pageSize settings, place.text⟩ w
  rw [Controller.initial, hlimit] at hbegun
  have hcarried := run_carryOut hperformed
  rw [turnTo, run_bind_ok hbegun]
  rcases checked_cases effects with ⟨hnone, hchecked⟩ | ⟨hsome, hchecked⟩
  · rw [hchecked] at hcarried
    rw [hnone, List.nil_perm] at hreported
    exact ⟨_, run_bind_ok hcarried, .arrived (reports_eq_nil.1 hreported)
      (machines_resting _ _ _) (activeView_resting _ _ _) rfl rfl⟩
  · rw [hchecked] at hcarried
    refine ⟨_, run_bind_error hcarried, .stopped (fun hnil => ?_) hreported⟩
    rw [hnil, List.perm_nil] at hreported
    exact hsome hreported

theorem run_turnTo_refused {failure : Failure}
    (hlimit : Query.checkLimit (place.pageSize settings) = .error failure) :
    (turnTo (World.services settings) settings dir place).run.run w =
      (.error (.refused failure), w) := by
  have hbegun := run_begin ⟨place.pageSize settings, place.text⟩ w
  rw [Controller.initial, hlimit] at hbegun
  rw [turnTo, run_bind_error hbegun]

end Turn

end Command

end FleetConsole
