import FleetConsole.Proofs.Controller.Parts
import FleetConsole.Proofs.Listing.Latest

/-!
# The listing of the controller under late answers

Operations overlap and their answers come in any order. At every moment the controller displays,
for each part of the listing, the page of one answer, and never goes back to an earlier request.
Once the request sent last is answered, its page is displayed. Only such answers are published.
-/

namespace FleetConsole.Controller

variable {c : Controller} {event : Event}

/-! ### One event -/

/-- An event is the answer to an open request of the listing. -/
def Answers (c : Controller) (event : Event) (request : Listing.Request)
    (given : Except Failure Page) : Prop :=
  ∃ tag, event = .listAnswered tag given ∧ c.listing.open? tag = some request

theorem Answers.unique {request other : Listing.Request} {given answer : Except Failure Page}
    (hanswers : c.Answers event request given) (hother : c.Answers event other answer) :
    request = other ∧ given = answer := by
  obtain ⟨tag, rfl, hopen⟩ := hanswers
  obtain ⟨tag', heq, hopen'⟩ := hother
  cases heq
  exact ⟨Option.some.inj (hopen.symm.trans hopen'), rfl⟩

theorem step_of_answers {request : Listing.Request} {given : Except Failure Page}
    (hanswers : c.Answers event request given) :
    (c.step event).1.machines = (c.listing.tracker.take request given).listing ∧
      (c.step event).2.published.listing = (c.listing.answer request given).published := by
  obtain ⟨tag, rfl, hopen⟩ := hanswers
  simp only [step, hopen, machines, Listing.Desk.answer_desk, and_self]

/-- Only answers to requests of the listing are published or change what it displays. -/
theorem step_of_not_answers (hnone : ∀ request given, ¬ c.Answers event request given) :
    (c.step event).1.machines = c.machines ∧ (c.step event).2.published.listing = false := by
  cases event with
  | setView view => exact ⟨c.listing.listing_call (.setView view), rfl⟩
  | setFilter text => exact ⟨c.listing.listing_call (.setFilter text), rfl⟩
  | setPage offset limit =>
    simp only [step]
    split
    · exact ⟨c.listing.listing_call (.setPage offset limit), rfl⟩
    · exact ⟨rfl, rfl⟩
  | showToken =>
    simp only [step]
    cases c.token.show? <;> exact ⟨rfl, rfl⟩
  | regenerateToken =>
    simp only [step]
    cases c.token.regenerate? <;> exact ⟨rfl, rfl⟩
  | listAnswered tag given =>
    cases hopen : c.listing.open? tag with
    | none => simp [step, hopen]
    | some request => exact absurd ⟨tag, rfl, hopen⟩ (hnone request given)
  | dumpAnswered serial given =>
    simp only [step]
    split
    · exact ⟨rfl, rfl⟩
    · cases given <;> exact ⟨rfl, rfl⟩
  | closeToken | downloadDump | tokenAnswered | dumpStored =>
    simp only [step]
    split <;> exact ⟨rfl, rfl⟩

/-- What an event does to a listing with a history. -/
structure ListingStep (c : Controller) (h : Listing.History) (event : Event) : Prop where
  count : ∀ request given, c.Answers event request given → request.part = .count →
    (c.step event).1.machines.items = c.machines.items ∧
      (c.step event).1.machines.total = c.machines.total
  page : ∀ request given, c.Answers event request given → request.part = .page →
    (c.step event).1.machines.unauthorizedTotal = c.machines.unauthorizedTotal
  published : (c.step event).2.published.listing = true ↔
    ∃ request page, c.Answers event request (.ok page) ∧
      Listing.latest? request.part h = some request
  /-- What is not published has not changed. -/
  unpublished : (c.step event).2.published.listing = false →
    (c.step event).1.machines = c.machines

/-- What is published is the answer to the request sent last. -/
theorem published_iff {h : Listing.History} (hagrees : Listing.Agrees c.listing.tracker h)
    (htallies : Listing.exchange.Tallies h c.listing) :
    (c.step event).2.published.listing = true ↔
      ∃ request page, c.Answers event request (.ok page) ∧
        Listing.latest? request.part h = some request := by
  by_cases hanswers : ∃ request given, c.Answers event request given
  · obtain ⟨request, given, hanswers⟩ := hanswers
    have hissued : .issued request ∈ h := by
      obtain ⟨tag, -, hopen⟩ := hanswers
      exact ((htallies.mem_pending request).1 (List.mem_of_find?_eq_some hopen)).1
    rw [(step_of_answers hanswers).2, Listing.Desk.answer_published,
      hagrees.latest_iff htallies.sound hissued]
    constructor
    · rintro ⟨⟨page, rfl⟩, hlatest⟩
      exact ⟨request, page, hanswers, hlatest⟩
    · rintro ⟨other, page, hother, hlatest⟩
      obtain ⟨rfl, rfl⟩ := hanswers.unique hother
      exact ⟨⟨page, rfl⟩, hlatest⟩
  · have hnone : ∀ request given, ¬ c.Answers event request given :=
      fun request given hnow => hanswers ⟨request, given, hnow⟩
    rw [(step_of_not_answers hnone).2]
    simp [hnone]

theorem listingStep {h : Listing.History} (hagrees : Listing.Agrees c.listing.tracker h)
    (htallies : Listing.exchange.Tallies h c.listing) (event : Event) : c.ListingStep h event := by
  refine ⟨?_, ?_, ?_, ?_⟩
  · intro request given hanswers hpart
    have hne : request.part ≠ .page := by simp [hpart]
    rw [(step_of_answers hanswers).1]
    exact (Listing.displays_take_of_ne hne c.listing.tracker given
      ⟨c.machines.items, c.machines.total⟩).2 ⟨rfl, rfl⟩
  · intro request given hanswers hpart
    have hne : request.part ≠ .count := by simp [hpart]
    rw [(step_of_answers hanswers).1]
    exact (Listing.displays_take_of_ne hne c.listing.tracker given
      ⟨[], c.machines.unauthorizedTotal⟩).2 rfl
  · rw [published_iff hagrees htallies]
  · intro hunpublished
    by_cases hanswers : ∃ request given, c.Answers event request given
    · obtain ⟨request, given, hanswers⟩ := hanswers
      obtain ⟨hmachines, hpublished⟩ := step_of_answers hanswers
      rw [hmachines]
      cases given with
      | error failure => rfl
      | ok page =>
        have hlate : c.listing.tracker.latest request.part ≠ some request.tag := by
          intro hlatest
          rw [hpublished, (c.listing.answer_published request _).2 ⟨⟨page, rfl⟩, hlatest⟩]
            at hunpublished
          cases hunpublished
        rw [Listing.Tracker.take_of_late hlate]
        rfl
    · exact (step_of_not_answers fun request given hnow => hanswers ⟨request, given, hnow⟩).1

/-! ### Every run -/

theorem stale_answers_dropped {setup : Setup} {start : Controller}
    (hstart : initial setup = .ok start) (events : List Event) :
    Listing.UpToDate (start.run events).1.machines (start.listed events) ∧
      (∀ later part, Listing.shown part (start.listed events) <:+
        Listing.shown part (start.listed (events ++ later))) ∧
      (∀ event, (start.run events).1.ListingStep (start.listed events) event) ∧
      (start.listed events).sent =
        ((start.run events).2.flatMap Effects.requests).filterMap Request.list? := by
  have hlisting : start.listing = Listing.Desk.initial setup.pageSize setup.text := by
    rw [initial_eq_ok hstart]
  have htallies : Listing.exchange.Tallies (start.listed events) (start.run events).1.listing := by
    rw [listed, run_listing, hlisting]
    exact Listing.exchange.tallies_run rfl _
  have hagrees : Listing.Agrees (start.run events).1.listing.tracker (start.listed events) := by
    rw [listed, run_listing, hlisting]
    exact Listing.agrees_run _ _ _
  refine ⟨hagrees.upToDate htallies.sound, ?_, listingStep hagrees htallies,
    start.sent_listed events⟩
  intro later part
  rw [listed_append]
  exact Listing.shown_suffix part _ _

/-- The first page comes after the next one, and is dropped. -/
theorem overtaken_page_dropped :
    initial {} = .ok { listing := Listing.Desk.initial 10 none } ∧
      (Controller.run { listing := Listing.Desk.initial 10 none }
        [.setView .authorized, .setPage 10 10, .listAnswered 3 (.ok ⟨[], 7⟩),
          .listAnswered 2 (.ok ⟨[], 9⟩)]).1.machines.Displays .page ⟨[], 7⟩ := by
  have hstart : initial {} = .ok { listing := Listing.Desk.initial 10 none } := rfl
  refine ⟨hstart, (stale_answers_dropped hstart _).1.latest .page
    ⟨.page, 3, ⟨10, 10, none, some true⟩, 3⟩ _ rfl ?_⟩
  -- the answer to the first page is the newest happening
  exact .tail _ (.head _)

end FleetConsole.Controller
