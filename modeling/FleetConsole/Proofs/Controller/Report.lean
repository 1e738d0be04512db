import FleetConsole.Proofs.Controller.Coherent
import FleetConsole.Proofs.Controller.Listing
import Mathlib.Data.List.Induction

/-!
# Reports of failures

What fails in an event can be said without looking at how the controller works: an answer that
fails in time, a dump that does not come or cannot be stored, a page that cannot be asked for, a
machine that is not on display (`Fails`). Each of these is reported by one notification, and nothing
else is. None of them touches the listing, and an operation that is refused touches nothing.
-/

namespace FleetConsole

namespace Inbox

theorem foldl_send (waiting notifications : List Notification) :
    notifications.foldl send ⟨waiting, true⟩ = ⟨waiting ++ notifications, true⟩ := by
  induction notifications generalizing waiting with
  | nil => simp
  | cons n notifications ih =>
    have hsend : send ⟨waiting, true⟩ n = ⟨waiting ++ [n], true⟩ := rfl
    rw [List.foldl_cons, hsend, ih, List.append_assoc]
    rfl

/-- A reader receives what was sent, in order. -/
theorem drain_foldl_send (notifications : List Notification) :
    (notifications.foldl send {}).drain.1 = some notifications := by
  rw [foldl_send]
  rfl

end Inbox

namespace Controller

/-- What fails in an event, under what was being done. The histories are those before the event. -/
inductive Fails (c : Controller) (listed : Listing.History) (instructed : Token.History) :
    Event → String → Failure → Prop
  | list {tag : Nat} {request : Listing.Request} {failure : Failure}
      (hopen : c.listing.open? tag = some request)
      (hlatest : Listing.latest? request.part listed = some request) :
      Fails c listed instructed (.listAnswered tag (.error failure)) request.part.failureSummary
        failure
  | fetch {serial : Nat} {request : Token.Request} {failure : Failure}
      (hopen : c.token.open? serial = some request)
      (hlast : Token.lastFetch? instructed = some request) :
      Fails c listed instructed (.tokenAnswered serial (.error failure))
        request.purpose.failureSummary failure
  | regeneration {serial : Nat} {request : Token.Request} {failure : Failure}
      (hopen : c.token.open? serial = some request) (hpurpose : request.purpose = .regenerate) :
      Fails c listed instructed (.tokenAnswered serial (.error failure))
        request.purpose.failureSummary failure
  | dump {serial : Nat} {request : Dump.Request} {failure : Failure}
      (hopen : c.dumps.open? serial = some request) :
      Fails c listed instructed (.dumpAnswered serial (.error failure)) Dump.failureSummary failure
  | delivery {serial : Nat} {arrival : Dump.Arrival} {failure : Failure}
      (hstoring : c.arrival? serial = some arrival) :
      Fails c listed instructed (.dumpStored serial (.error failure)) Dump.failureSummary failure
  | page {offset limit : Nat} (hlimit : ¬ (1 ≤ limit ∧ limit ≤ 100)) :
      Fails c listed instructed (.setPage offset limit) invalidQuerySummary Query.limitFailure
  | unlisted {machine : Int} (hmissing : ∀ m ∈ c.machines.items, m.id ≠ machine) :
      Fails c listed instructed (.downloadDump machine) Dump.failureSummary
        (.unknownMachine machine)

/-! ### One event -/

section Step

variable {c : Controller} {listed : Listing.History} {instructed : Token.History} {event : Event}
  {summary : String} {failure : Failure}

theorem step_setPage_refused {limit : Nat} (hlimit : ¬ (1 ≤ limit ∧ limit ≤ 100)) (offset : Nat) :
    c.step (.setPage offset limit) =
      c.immediate [Notification.ofFailure invalidQuerySummary Query.limitFailure] := by
  rw [← Query.validLimit_iff] at hlimit
  simp [step, checkLimit_eq, hlimit]

theorem step_downloadDump_refused {machine : Int}
    (hmissing : ∀ m ∈ c.machines.items, m.id ≠ machine) :
    c.step (.downloadDump machine) =
      c.immediate [Notification.ofFailure Dump.failureSummary (.unknownMachine machine)] := by
  have hnone : ¬ (c.machines.find? machine).isSome = true := by
    rw [FleetConsole.Listing.isSome_find?_iff]
    rintro ⟨m, hmem, hid⟩
    exact hmissing m hmem hid
  exact if_neg hnone

theorem notifications_of_fails (hcoherent : Coherent c listed instructed)
    (hfails : Fails c listed instructed event summary failure) :
    (c.step event).2.notifications = [Notification.ofFailure summary failure] := by
  cases hfails with
  | list hopen hlatest =>
    simp only [step, hopen, Listing.Desk.answer_error_notification]
    rw [if_pos ((hcoherent.latest_iff hopen).2 hlatest)]
    rfl
  | fetch hopen hlast =>
    simp only [step, hopen, Token.Desk.answer_error_failure]
    rw [if_pos (.inr ((hcoherent.lastFetch_iff hopen).2 hlast))]
    rfl
  | regeneration hopen hpurpose =>
    simp only [step, hopen, Token.Desk.answer_error_failure]
    rw [if_pos (.inl hpurpose)]
    rfl
  | dump hopen =>
    simp only [step, hopen]
    rfl
  | delivery hstoring =>
    simp only [step, hstoring]
    rfl
  | page hlimit => rw [step_setPage_refused hlimit]; rfl
  | unlisted hmissing => rw [step_downloadDump_refused hmissing]; rfl

theorem notifications_of_not_fails (hcoherent : Coherent c listed instructed)
    (hnone : ∀ summary failure, ¬ Fails c listed instructed event summary failure) :
    (c.step event).2.notifications = [] := by
  cases event with
  | setView | setFilter => rfl
  | showToken =>
    simp only [step]
    cases c.token.show? <;> rfl
  | regenerateToken =>
    simp only [step]
    cases c.token.regenerate? <;> rfl
  | closeToken =>
    simp only [step]
    split <;> rfl
  | setPage offset limit =>
    by_cases hlimit : 1 ≤ limit ∧ limit ≤ 100
    · rw [← Query.validLimit_iff] at hlimit
      simp [step, checkLimit_eq, hlimit, listRequested]
    · exact absurd (.page hlimit) (hnone _ _)
  | downloadDump machine =>
    by_cases hlisted : ∃ m ∈ c.machines.items, m.id = machine
    · have hsome := FleetConsole.Listing.isSome_find?_iff.2 hlisted
      rw [machines] at hsome
      simp [step, hsome]
    · refine absurd (.unlisted ?_) (hnone _ _)
      exact fun m hmem hid => hlisted ⟨m, hmem, hid⟩
  | listAnswered tag given =>
    cases hopen : c.listing.open? tag with
    | none => simp [step, hopen]
    | some request =>
      cases given with
      | ok page => simp [step, hopen, Listing.Desk.answer_ok_notification]
      | error failure =>
        have hlate : ¬ c.listing.tracker.latest request.part = some request.tag := by
          rw [hcoherent.latest_iff hopen]
          exact fun hlatest => hnone _ _ (.list hopen hlatest)
        simp [step, hopen, Listing.Desk.answer_error_notification, hlate]
  | tokenAnswered serial given =>
    cases hopen : c.token.open? serial with
    | none => simp [step, hopen]
    | some request =>
      cases given with
      | ok token => simp [step, hopen, Token.Desk.answer_ok_failure]
      | error failure =>
        have hlate : ¬ (request.purpose = .regenerate ∨
            request.purpose = .fetch c.token.panel.attempts) := by
          rw [hcoherent.lastFetch_iff hopen]
          rintro (hpurpose | hlast)
          · exact hnone _ _ (.regeneration hopen hpurpose)
          · exact hnone _ _ (.fetch hopen hlast)
        simp [step, hopen, Token.Desk.answer_error_failure, hlate]
  | dumpAnswered serial given =>
    cases hopen : c.dumps.open? serial with
    | none => simp [step, hopen]
    | some request =>
      cases given with
      | error failure => exact absurd (.dump hopen) (hnone _ _)
      | ok artifact => simp [step, hopen, received]
  | dumpStored serial result =>
    cases hstoring : c.arrival? serial with
    | none => simp [step, hstoring]
    | some arrival =>
      cases result with
      | error failure => exact absurd (.delivery hstoring) (hnone _ _)
      | ok path => simp [step, hstoring, downloaded, Dump.report]

/-- What a failure leaves alone. -/
structure Contained (c : Controller) (event : Event) : Prop where
  machines : (c.step event).1.machines = c.machines
  unpublished : (c.step event).2.published.listing = false
  /-- A page that cannot be asked for changes nothing at all, and no request is sent. -/
  page : ∀ offset limit, event = .setPage offset limit →
    (c.step event).1 = c ∧ (c.step event).2.requests = []
  dump : ∀ machine, event = .downloadDump machine →
    (c.step event).1 = c ∧ (c.step event).2.requests = []

theorem Fails.contained (hfails : Fails c listed instructed event summary failure) :
    Contained c event := by
  cases hfails with
  | @list tag request failure hopen hlatest =>
    obtain ⟨hmachines, hpublished⟩ := step_of_answers ⟨tag, rfl, hopen⟩
    rw [Listing.Tracker.take_error] at hmachines
    exact ⟨hmachines, hpublished.trans (Listing.Desk.answer_error_published ..), nofun, nofun⟩
  | fetch | regeneration | dump | delivery =>
    refine ⟨(step_of_not_answers ?_).1, (step_of_not_answers ?_).2, nofun, nofun⟩ <;>
      simp [Answers]
  | @page offset limit hlimit =>
    have hrefused := step_setPage_refused (c := c) hlimit offset
    constructor <;> simp [hrefused, immediate]
  | unlisted hmissing =>
    have hrefused := step_downloadDump_refused hmissing
    constructor <;> simp [hrefused, immediate]

end Step

/-! ### Every run -/

/-- The notifications that the failures of a run call for, in order. -/
inductive Reported (start : Controller) : List Event → List Notification → Prop
  | nil : Reported start [] []
  | failed {events : List Event} {notifications : List Notification} {event : Event}
      {summary : String} {failure : Failure} : Reported start events notifications →
      Fails (start.run events).1 (start.listed events) (start.instructed events) event summary
        failure →
      Reported start (events ++ [event]) (notifications ++ [⟨.error, summary, failure.reason⟩])
  | quiet {events : List Event} {notifications : List Notification} {event : Event} :
      Reported start events notifications →
      (∀ summary failure, ¬ Fails (start.run events).1 (start.listed events)
        (start.instructed events) event summary failure) →
      Reported start (events ++ [event]) notifications

section Run

variable {setup : Setup} {start : Controller}

/-- The notifications that a run sends. -/
def notified (start : Controller) (events : List Event) : List Notification :=
  (start.run events).2.flatMap Effects.notifications

theorem notified_concat (events : List Event) (event : Event) :
    start.notified (events ++ [event]) =
      start.notified events ++ ((start.run events).1.step event).2.notifications := by
  rw [notified, run_effects_append, List.flatMap_append]
  simp [notified, run]

theorem Reported.eq_notified (hstart : initial setup = .ok start) {events : List Event}
    {notifications : List Notification} (hreported : Reported start events notifications) :
    notifications = start.notified events := by
  induction hreported with
  | nil => rfl
  | @failed events notifications event summary failure _ hfails ih =>
    rw [notified_concat, notifications_of_fails (coherent_run hstart events) hfails, ih]
    rfl
  | @quiet events notifications event _ hnone ih =>
    rw [notified_concat, notifications_of_not_fails (coherent_run hstart events) hnone, ih,
      List.append_nil]

theorem reported_notified (hstart : initial setup = .ok start) (events : List Event) :
    Reported start events (start.notified events) := by
  induction events using List.reverseRecOn with
  | nil => exact .nil
  | append_singleton events event ih =>
    rw [notified_concat]
    by_cases hfails : ∃ summary failure, Fails (start.run events).1 (start.listed events)
        (start.instructed events) event summary failure
    · obtain ⟨summary, failure, hfails⟩ := hfails
      rw [notifications_of_fails (coherent_run hstart events) hfails]
      exact .failed ih hfails
    · have hnone := fun summary failure hnow => hfails ⟨summary, failure, hnow⟩
      rw [notifications_of_not_fails (coherent_run hstart events) hnone, List.append_nil]
      exact .quiet ih hnone

end Run

/-- The notifications received in a run are those that its failures call for. -/
theorem failures_reported_once {setup : Setup} {start : Controller}
    (hstart : initial setup = .ok start) (events : List Event) :
    (∀ notifications, ((start.notified events).foldl Inbox.send {}).drain.1 = some notifications ↔
      Reported start events notifications) ∧
    ∀ event summary failure, Fails (start.run events).1 (start.listed events)
      (start.instructed events) event summary failure → Contained (start.run events).1 event := by
  refine ⟨fun notifications => ?_, fun _ _ _ hfails => hfails.contained⟩
  rw [Inbox.drain_foldl_send, Option.some.injEq]
  constructor
  · rintro rfl
    exact reported_notified hstart events
  · exact fun hreported => (hreported.eq_notified hstart).symm

/-- Two of three failed list answers come in time; the first page is overtaken by the next one. -/
def failedAnswers : List Event :=
  [.setView .authorized, .setPage 10 10, .listAnswered 2 (.error (.transport "slow")),
    .listAnswered 1 (.error (.server 500 "locked")), .listAnswered 3 (.error (.server 500 "down"))]

theorem failures_in_time_reported :
    initial {} = .ok fresh ∧
      Reported fresh failedAnswers
        [⟨.error, "Cannot get unauthorized machines count", "locked"⟩,
          ⟨.error, "Cannot get machines list", "down"⟩] ∧
      Fails (fresh.run failedAnswers).1 (fresh.listed failedAnswers)
        (fresh.instructed failedAnswers) (.downloadDump 7) "Cannot download machine dump"
        (.unknownMachine 7) ∧
      Contained (fresh.run failedAnswers).1 (.downloadDump 7) := by
  have hfails : Fails (fresh.run failedAnswers).1 (fresh.listed failedAnswers)
      (fresh.instructed failedAnswers) (.downloadDump 7) "Cannot download machine dump"
      (.unknownMachine 7) := .unlisted nofun
  obtain ⟨hreported, hcontained⟩ := failures_reported_once initial_fresh failedAnswers
  exact ⟨initial_fresh, (hreported _).1 rfl, hfails, hcontained _ _ _ hfails⟩

end Controller

end FleetConsole
