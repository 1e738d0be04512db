import FleetConsole.Proofs.Controller.Coherent
import FleetConsole.Proofs.Text.Chars
import Mathlib.Data.List.Induction

/-!
# What the controller asks for

The query for a page is what many operations left behind, each of which sets some of its parameters
and resets others. It can be said without a selection that is changed step by step: every parameter
is what the last operation said that has a say in it (`currentQuery`). The requests of the listing
in every run are those queries, with the count in front where the view is a new one.
-/

namespace FleetConsole

/-- A query that can be answered, with no blanks around its text. -/
structure Query.WellFormed (query : Query) : Prop where
  limit : 1 ≤ query.limit ∧ query.limit ≤ 100
  text : ∀ s, query.text = some s → Text.isBlankText s = false ∧ Text.Trimmed s.toList
  authorized : query.authorized.isSome = true

theorem Query.trimmed_normalize {text : Option String} {s : String}
    (hnormalize : normalize text = some s) :
    Text.isBlankText s = false ∧ Text.Trimmed s.toList := by
  obtain ⟨htrim, hne⟩ := Option.filter_eq_some_iff.1 hnormalize
  obtain ⟨given, -, rfl⟩ := Option.map_eq_some_iff.1 htrim
  have htrimmed : Text.Trimmed (Text.trim given).toList := by
    rw [Text.trim, String.toList_ofList]
    exact Text.trimmed_trimChars _
  exact ⟨htrimmed.not_blank (by simpa using hne), htrimmed⟩

theorem Query.wellFormed_probe : Query.probe.WellFormed :=
  ⟨by decide, nofun, rfl⟩

namespace Listing.Desk

@[simp] theorem request_selection (desk : Desk) (selection : Selection) (count : Option Query) :
    (desk.request selection count).1.selection = selection := by
  cases count <;> rfl

theorem request_queries (desk : Desk) (selection : Selection) (count : Option Query) :
    ((desk.request selection count).2.map fun request => (request.part, request.query)) =
      (count.map fun query => (.count, query)).toList ++ [(.page, selection.query)] := by
  cases count <;> rfl

end Listing.Desk

namespace Controller

/-! ### What the last operation said -/

section Last

variable {α : Type}

/-- What the last event has for a parameter that not every event has a value for. -/
def last? (f : Event → Option α) (events : List Event) : Option α :=
  (events.filterMap f).getLast?

theorem last?_concat (f : Event → Option α) (events : List Event) (event : Event) :
    last? f (events ++ [event]) = (f event).or (last? f events) := by
  rw [last?, List.filterMap_append, List.getLast?_append]
  cases hf : f event <;> simp [last?, hf]

theorem exists_of_last? {f : Event → Option α} {events : List Event} {said : α}
    (hlast : last? f events = some said) : ∃ event, f event = some said := by
  obtain ⟨event, -, hf⟩ := List.mem_filterMap.1 (List.mem_of_getLast? hlast)
  exact ⟨event, hf⟩

end Last

namespace Event

/-- The view that is selected. -/
def view? : Event → Option View
  | .setView view => some view
  | _ => none

/-- The filter that is set. -/
def filter? : Event → Option (Option String)
  | .setFilter text => some text
  | _ => none

/-- The length of a page, if a page can be that long. -/
def limit? : Event → Option Nat
  | .setPage _ limit => if 1 ≤ limit ∧ limit ≤ 100 then some limit else none
  | _ => none

/-- The place of a page, which is the first one for a new view or filter. -/
def offset? : Event → Option Nat
  | .setPage offset limit => if 1 ≤ limit ∧ limit ≤ 100 then some offset else none
  | .setView _ | .setFilter _ => some 0
  | _ => none

/-- The selection after an event. -/
def reselect (s : Selection) : Event → Selection
  | .setView view => s.select view
  | .setPage offset limit => if 1 ≤ limit ∧ limit ≤ 100 then s.page offset limit else s
  | .setFilter text => s.filter text
  | _ => s

end Event

/-- The query that a page is asked for by, after events. -/
def currentQuery (setup : Setup) (events : List Event) : Query where
  offset := (last? Event.offset? events).getD 0
  limit := (last? Event.limit? events).getD setup.pageSize
  text := Query.normalize ((last? Event.filter? events).getD setup.text)
  authorized := some ((last? Event.view? events).getD .authorized).isAuthorized

/-- What an event asks for, after others: the parts of the listing and the queries, in order. -/
def asked (setup : Setup) (events : List Event) (event : Event) :
    List (Listing.Part × Query) :=
  let page := (.page, currentQuery setup (events ++ [event]))
  match event with
  | .setView view =>
    if last? Event.view? events = some view then [page]
    else [(.count, ⟨0, 1, none, some false⟩), page]
  | .setPage _ limit => if 1 ≤ limit ∧ limit ≤ 100 then [page] else []
  | .setFilter _ => [page]
  | _ => []

theorem wellFormed_currentQuery {setup : Setup}
    (hsize : 1 ≤ setup.pageSize ∧ setup.pageSize ≤ 100) (events : List Event) :
    (currentQuery setup events).WellFormed where
  limit := by
    show 1 ≤ (last? Event.limit? events).getD _ ∧ (last? Event.limit? events).getD _ ≤ 100
    cases hlast : last? Event.limit? events with
    | none => exact hsize
    | some limit =>
      obtain ⟨event, hf⟩ := exists_of_last? hlast
      cases event with
      | setPage offset other =>
        obtain ⟨hvalid, heq⟩ := Option.ite_none_right_eq_some.1 hf
        exact Option.some.inj heq ▸ hvalid
      | _ => cases hf
  text _ htext := Query.trimmed_normalize htext
  authorized := rfl

theorem wellFormed_of_asked {setup : Setup} (hsize : 1 ≤ setup.pageSize ∧ setup.pageSize ≤ 100)
    {events : List Event} {event : Event} {part : Listing.Part} {query : Query}
    (hasked : (part, query) ∈ asked setup events event) : query.WellFormed := by
  have hpage := wellFormed_currentQuery hsize (events ++ [event])
  cases event with
  | setView view =>
    simp only [asked] at hasked
    split at hasked
    · cases List.mem_singleton.1 hasked
      exact hpage
    · rcases List.mem_pair.1 hasked with heq | heq <;> cases heq
      · exact Query.wellFormed_probe
      · exact hpage
  | setPage offset limit =>
    simp only [asked] at hasked
    split at hasked
    · cases List.mem_singleton.1 hasked
      exact hpage
    · cases hasked
  | setFilter text =>
    cases List.mem_singleton.1 hasked
    exact hpage
  | _ => cases hasked

/-! ### The selection in a run -/

theorem initial_pageSize {setup : Setup} {start : Controller} (hstart : initial setup = .ok start) :
    1 ≤ setup.pageSize ∧ setup.pageSize ≤ 100 := by
  rw [initial, checkLimit_eq] at hstart
  split at hstart
  · exact Query.validLimit_iff.1 ‹_›
  · cases hstart

variable {setup : Setup} {start : Controller}

theorem step_selection (c : Controller) (event : Event) :
    (c.step event).1.listing.selection = event.reselect c.listing.selection := by
  rw [step_listing]
  cases event with
  | setView | setFilter => exact Listing.Desk.request_selection ..
  | setPage offset limit =>
    simp only [Event.listing?, Event.reselect, ← Query.validLimit_iff]
    split
    · exact Listing.Desk.request_selection ..
    · rfl
  | listAnswered tag given =>
    simp only [Event.listing?, Option.elim_some, Exchange.after]
    split
    · show (Listing.Desk.answer _ _ _).desk.selection = _
      rw [Listing.Desk.answer_desk]
      rfl
    · rfl
  | _ => rfl

/-- The selection that events leave behind. -/
def settled (setup : Setup) (events : List Event) : Selection where
  active := (last? Event.view? events).getD .authorized
  offset := (last? Event.offset? events).getD 0
  limit := (last? Event.limit? events).getD setup.pageSize
  text := Query.normalize ((last? Event.filter? events).getD setup.text)
  selected := (last? Event.view? events).isSome

theorem settled_concat (setup : Setup) (events : List Event) (event : Event) :
    settled setup (events ++ [event]) = event.reselect (settled setup events) := by
  cases event with
  | setPage offset limit =>
    by_cases hlimit : 1 ≤ limit ∧ limit ≤ 100 <;>
      simp [settled, last?_concat, Event.reselect, Event.view?, Event.offset?, Event.limit?,
        Event.filter?, hlimit, Selection.page]
  | _ =>
    simp [settled, last?_concat, Event.reselect, Event.view?, Event.offset?, Event.limit?,
      Event.filter?, Selection.select, Selection.filter]

theorem run_selection (hstart : initial setup = .ok start) (events : List Event) :
    (start.run events).1.listing.selection = settled setup events := by
  induction events using List.reverseRecOn with
  | nil =>
    rw [initial_eq_ok hstart]
    rfl
  | append_singleton events event ih =>
    rw [run_append, settled_concat, ← ih]
    exact step_selection _ event

/-! ### The requests in a run -/

/-- A request sent in a run was sent in one of its events. -/
theorem exists_step_of_sent {c : Controller} {events : List Event} {request : Request}
    (hsent : request ∈ (c.run events).2.flatMap Effects.requests) :
    ∃ before event, request ∈ ((c.run before).1.step event).2.requests := by
  induction events using List.reverseRecOn with
  | nil => cases hsent
  | append_singleton events event ih =>
    rw [run_effects_append, List.flatMap_append] at hsent
    rcases List.mem_append.1 hsent with hbefore | hnow
    · exact ih hbefore
    · exact ⟨events, event, by simpa [run] using hnow⟩

/-- The parts of the listing that requests are for, with the queries. -/
def queried (requests : List Request) : List (Listing.Part × Query) :=
  (requests.filterMap Request.list?).map fun request => (request.part, request.query)

theorem query_settled (setup : Setup) (events : List Event) :
    (settled setup events).query = currentQuery setup events := rfl

theorem probe?_settled (setup : Setup) (events : List Event) (view : View) :
    (settled setup events).probe? view =
      if last? Event.view? events = some view then none else some Query.probe := by
  cases hlast : last? Event.view? events with
  | none => simp [settled, Selection.probe?, hlast]
  | some last => by_cases hsame : last = view <;> simp [settled, Selection.probe?, hlast, hsame]

theorem queried_step (hstart : initial setup = .ok start) (events : List Event) (event : Event) :
    queried ((start.run events).1.step event).2.requests = asked setup events event := by
  have hselection := run_selection hstart events
  generalize (start.run events).1 = c at hselection ⊢
  -- every operation asks for the page that is selected then
  have hpage : (event.reselect c.listing.selection).query =
      currentQuery setup (events ++ [event]) := by
    rw [hselection, ← settled_concat, query_settled]
  have hrequested : ∀ operation count, event.listing? = some (.call operation) →
      (c.listing.call operation).2 =
        (c.listing.request (event.reselect c.listing.selection) count).2 →
      queried (c.step event).2.requests = (count.map fun query => (.count, query)).toList ++
        [(.page, currentQuery setup (events ++ [event]))] := by
    intro operation count hevent hcall
    rw [queried, step_list_requests, hevent, Option.elim_some, Exchange.sent_heard_call, ← hpage,
      ← Listing.Desk.request_queries c.listing]
    exact congrArg _ hcall
  cases event with
  | setView view =>
    rw [hrequested (.setView view) (c.listing.selection.probe? view) rfl rfl, hselection,
      probe?_settled]
    simp only [asked]
    split <;> rfl
  | setPage offset limit =>
    by_cases hlimit : 1 ≤ limit ∧ limit ≤ 100
    · have hevent : (Event.setPage offset limit).listing? = some (.call (.setPage offset limit)) :=
        if_pos (Query.validLimit_iff.2 hlimit)
      have hselected : (Event.setPage offset limit).reselect c.listing.selection =
          c.listing.selection.page offset limit := if_pos hlimit
      rw [hrequested _ none hevent (by rw [hselected]; rfl)]
      simp [asked, hlimit]
    · have hevent : (Event.setPage offset limit).listing? = none :=
        if_neg fun hvalid => hlimit (Query.validLimit_iff.1 hvalid)
      rw [queried, step_list_requests, hevent]
      simp [asked, hlimit]
  | setFilter text => exact hrequested (.setFilter text) none rfl rfl
  | listAnswered tag given =>
    rw [queried, step_list_requests, Event.listing?, Option.elim_some, Exchange.sent_heard_answer]
    rfl
  | _ =>
    rw [queried, step_list_requests]
    rfl

/-- Every request of the listing is what the operations before it call for, and can be answered. -/
theorem requests_follow_operations (hstart : initial setup = .ok start) (events : List Event) :
    (∀ event, queried ((start.run events).1.step event).2.requests = asked setup events event) ∧
    ∀ request, .list request ∈ (start.run events).2.flatMap Effects.requests →
      request.query.WellFormed := by
  refine ⟨queried_step hstart events, fun request hsent => ?_⟩
  obtain ⟨before, event, hmem⟩ := exists_step_of_sent hsent
  have hasked : (request.part, request.query) ∈ asked setup before event := by
    rw [← queried_step hstart before event]
    exact List.mem_map_of_mem (List.mem_filterMap.2 ⟨_, hmem, rfl⟩)
  exact wellFormed_of_asked (initial_pageSize hstart) hasked

/-- Pages of the other machines, one of which cannot be asked for, and a filter with blanks. -/
def browsing : List Event :=
  [.setView .unauthorized, .setPage 20 5, .setFilter (some " web "), .setPage 40 200]

/-- The limit and the filter stay for the other view, and the count is asked for again. -/
theorem view_switch_after_browsing :
    initial {} = .ok fresh ∧
      queried ((fresh.run browsing).1.step (.setView .authorized)).2.requests =
        [(.count, ⟨0, 1, none, some false⟩), (.page, ⟨0, 5, some "web", some true⟩)] ∧
      .list ⟨.page, 3, ⟨20, 5, none, some false⟩, 3⟩ ∈
        (fresh.run browsing).2.flatMap Effects.requests ∧
      Query.WellFormed ⟨20, 5, none, some false⟩ := by
  obtain ⟨hqueried, hwellFormed⟩ := requests_follow_operations initial_fresh browsing
  have hsent : .list ⟨.page, 3, ⟨20, 5, none, some false⟩, 3⟩ ∈
      (fresh.run browsing).2.flatMap Effects.requests := .tail _ (.tail _ (.head _))
  refine ⟨initial_fresh, (hqueried _).trans ?_, hsent, hwellFormed _ hsent⟩
  decide

end Controller

end FleetConsole
