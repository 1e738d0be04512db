import FleetConsole.Controller
import FleetConsole.Proofs.Dump.Step
import FleetConsole.Proofs.Listing.Step
import FleetConsole.Proofs.Token.Step

/-!
# The parts of the controller in a run

Whatever else the controller does, its listing and its instruction run as if they were alone, each
on the events that are about it, and the requests in their histories are those that the controller
sent. So what is proved of the parts holds of the controller. The dumps depend on the listing, but
only on whether a machine is on display when its dump is asked for.
-/

namespace FleetConsole

/-- A request, if it is for the listing. -/
def Request.list? : Request → Option Listing.Request
  | .list request => some request
  | _ => none

/-- A request, if it is for the instruction. -/
def Request.token? : Request → Option Token.Request
  | .token request => some request
  | _ => none

/-- A request, if it is for a dump. -/
def Request.dump? : Request → Option Dump.Request
  | .dump request => some request
  | _ => none

theorem Listing.isSome_find?_iff {listing : Listing} {machine : Int} :
    (listing.find? machine).isSome = true ↔ ∃ m ∈ listing.items, m.id = machine := by
  simp [find?, List.find?_isSome]

theorem Query.validLimit_iff {limit : Nat} :
    validLimit limit = true ↔ 1 ≤ limit ∧ limit ≤ 100 := by
  rw [validLimit, Bool.and_eq_true, decide_eq_true_iff, decide_eq_true_iff]
  rfl

namespace Controller

/-- What an event is for the listing. A page with a limit that is not valid is never selected. -/
def Event.listing? : Event → Option Listing.Event
  | .setView view => some (.call (.setView view))
  | .setPage offset limit =>
    if Query.validLimit limit then some (.call (.setPage offset limit)) else none
  | .setFilter text => some (.call (.setFilter text))
  | .listAnswered tag given => some (.answer tag given)
  | _ => none

/-- What an event is for the instruction. -/
def Event.token? : Event → Option Token.Event
  | .showToken => some (.call .showToken)
  | .regenerateToken => some (.call .regenerateToken)
  | .closeToken => some (.call .closeToken)
  | .tokenAnswered serial given => some (.answer serial given)
  | _ => none

/-- What an event is for the dumps, when a listing is on display. -/
def Event.dump? (displayed : Listing) : Event → Option Dump.Event
  | .downloadDump machine =>
    if (displayed.find? machine).isSome then some (.call machine) else none
  | .dumpAnswered serial given => some (.answer serial given)
  | _ => none

/-- What happened to the listing in a run. -/
def listed (c : Controller) (events : List Event) : Listing.History :=
  Listing.exchange.history c.listing (events.filterMap Event.listing?)

/-- What happened to the instruction in a run. -/
def instructed (c : Controller) (events : List Event) : Token.History :=
  Token.exchange.history c.token (events.filterMap Event.token?)

theorem run_eq_foldl (c : Controller) (events : List Event) :
    (c.run events).1 = events.foldl (fun c event => (c.step event).1) c := by
  induction events generalizing c with
  | nil => rfl
  | cons event events ih => exact ih _

theorem run_append (c : Controller) (earlier later : List Event) :
    (c.run (earlier ++ later)).1 = ((c.run earlier).1.run later).1 := by
  simp only [run_eq_foldl, List.foldl_append]

theorem run_effects_append (c : Controller) (earlier later : List Event) :
    (c.run (earlier ++ later)).2 = (c.run earlier).2 ++ ((c.run earlier).1.run later).2 := by
  induction earlier generalizing c with
  | nil => rfl
  | cons event earlier ih => exact congrArg (_ :: ·) (ih _)

theorem checkLimit_eq (limit : Nat) : Query.checkLimit limit =
    if Query.validLimit limit then .ok () else .error Query.limitFailure := rfl

theorem initial_eq_ok {setup : Setup} {start : Controller} (hstart : initial setup = .ok start) :
    start = { listing := Listing.Desk.initial setup.pageSize setup.text } := by
  rw [initial, checkLimit_eq] at hstart
  split at hstart
  · exact (Except.ok.inj hstart).symm
  · cases hstart

/-! ### One event -/

variable (c : Controller)

@[simp] theorem tokenRequested_listing (begun : Option (Token.Desk × Token.Request)) :
    (c.tokenRequested begun).1.listing = c.listing := by
  cases begun <;> rfl

@[simp] theorem tokenRequested_token (begun : Option (Token.Desk × Token.Request)) :
    (c.tokenRequested begun).1.token = (c.token.begun begun).1 := by
  cases begun <;> rfl

@[simp] theorem tokenRequested_dumps (begun : Option (Token.Desk × Token.Request)) :
    (c.tokenRequested begun).1.dumps = c.dumps := by
  cases begun <;> rfl

section Received

variable (serial : Nat) (given : Except Failure Dump.Artifact)

@[simp] theorem received_listing : (c.received serial given).1.listing = c.listing := by
  cases given <;> rfl

@[simp] theorem received_token : (c.received serial given).1.token = c.token := by
  cases given <;> rfl

@[simp] theorem received_dumps : (c.received serial given).1.dumps = c.dumps := by
  cases given <;> rfl

@[simp] theorem received_storing : (c.received serial given).1.storing =
    c.storing ++ (c.received serial given).2.arrivals := by
  cases given with
  | ok artifact => rfl
  | error failure => exact (List.append_nil _).symm

@[simp] theorem received_requests : (c.received serial given).2.requests = [] := by
  cases given <;> rfl

end Received

theorem step_listing (event : Event) : (c.step event).1.listing =
    event.listing?.elim c.listing (Listing.exchange.after c.listing) := by
  cases event with
  | setView | setFilter => rfl
  | showToken | regenerateToken => exact c.tokenRequested_listing _
  | setPage offset limit =>
    by_cases hlimit : Query.validLimit limit = true <;>
      simp only [step, Event.listing?, checkLimit_eq, hlimit] <;> rfl
  | listAnswered tag given =>
    simp only [step, Event.listing?, Option.elim_some, Exchange.after, Listing.exchange_open?]
    cases c.listing.open? tag <;> rfl
  | dumpAnswered serial given =>
    simp only [step]
    split
    · rfl
    · exact received_listing ..
  | closeToken | tokenAnswered | downloadDump | dumpStored =>
    simp only [step]
    split <;> rfl

theorem step_token (event : Event) : (c.step event).1.token =
    event.token?.elim c.token (Token.exchange.after c.token) := by
  cases event with
  | setView | setFilter => rfl
  | showToken | regenerateToken => exact c.tokenRequested_token _
  | closeToken =>
    simp only [step, Event.token?, Option.elim_some, Exchange.after]
    show _ = c.token.close?.getD c.token
    cases c.token.close? <;> rfl
  | tokenAnswered serial given =>
    simp only [step, Event.token?, Option.elim_some, Exchange.after, Token.exchange_open?]
    cases c.token.open? serial <;> rfl
  | dumpAnswered serial given =>
    simp only [step]
    split
    · rfl
    · exact received_token ..
  | setPage | listAnswered | downloadDump | dumpStored =>
    simp only [step]
    split <;> rfl

theorem step_dumps (event : Event) : (c.step event).1.dumps =
    (event.dump? c.machines).elim c.dumps (Dump.exchange.after c.dumps) := by
  cases event with
  | setView | setFilter => rfl
  | showToken | regenerateToken => exact c.tokenRequested_dumps _
  | downloadDump machine =>
    by_cases hlisted : (c.listing.tracker.listing.find? machine).isSome = true <;>
      simp only [step, Event.dump?, machines, hlisted] <;> rfl
  | dumpAnswered serial given =>
    simp only [step, Event.dump?, Option.elim_some, Exchange.after, Dump.exchange_open?]
    cases c.dumps.open? serial with
    | none => rfl
    | some request => exact received_dumps ..
  | setPage | closeToken | listAnswered | tokenAnswered | dumpStored =>
    simp only [step]
    split <;> rfl

/-- The dumps being stored that an event puts an end to. -/
def Event.stores : Event → Dump.Arrival → Bool
  | .dumpStored serial _, arrival => arrival.serial = serial
  | _, _ => false

/-- Dumps are stored from their arrival to the end of storing them. -/
theorem step_storing (event : Event) : (c.step event).1.storing =
    c.storing.filter (fun arrival => !event.stores arrival) ++ (c.step event).2.arrivals := by
  have hkept : (∀ arrival, event.stores arrival = false) →
      (c.step event).1.storing = c.storing ++ (c.step event).2.arrivals →
      (c.step event).1.storing = c.storing.filter (fun arrival => !event.stores arrival) ++
        (c.step event).2.arrivals := by
    intro hnone hstep
    rwa [List.filter_eq_self.2 fun arrival _ => by rw [hnone]; rfl]
  cases event with
  | dumpStored serial result =>
    simp only [step]
    cases harrival : c.arrival? serial with
    | none =>
      have hother : ∀ arrival ∈ c.storing, ¬ arrival.serial = serial := by
        simpa [arrival?] using harrival
      show c.storing = _ ++ []
      rw [List.append_nil, List.filter_eq_self.2 (by simpa [Event.stores] using hother)]
    | some arrival => simp only [Event.stores, downloaded, List.append_nil, decide_not]
  | dumpAnswered serial given =>
    refine hkept (fun _ => rfl) ?_
    simp only [step]
    split
    · exact (List.append_nil _).symm
    · exact received_storing ..
  | setView | setFilter => exact hkept (fun _ => rfl) (List.append_nil _).symm
  | showToken | regenerateToken =>
    refine hkept (fun _ => rfl) ?_
    simp only [step, tokenRequested]
    split <;> exact (List.append_nil _).symm
  | setPage | closeToken | listAnswered | tokenAnswered | downloadDump =>
    refine hkept (fun _ => rfl) ?_
    simp only [step]
    split <;> exact (List.append_nil _).symm

@[simp] theorem filterMap_list?_map (requests : List Listing.Request) :
    (requests.map Request.list).filterMap Request.list? = requests := by
  simp [List.filterMap_map, Function.comp_def, Request.list?]

theorem tokenRequested_requests (begun : Option (Token.Desk × Token.Request)) :
    (c.tokenRequested begun).2.requests = (c.token.begun begun).2.map Request.token := by
  cases begun <;> rfl

theorem step_list_requests (event : Event) :
    (c.step event).2.requests.filterMap Request.list? =
      event.listing?.elim [] fun event => (Listing.exchange.heard c.listing event).sent := by
  cases event with
  | setView | setFilter =>
    simp only [Event.listing?, Option.elim_some, Exchange.sent_heard_call]
    exact filterMap_list?_map _
  | setPage offset limit =>
    by_cases hlimit : Query.validLimit limit = true
    · simp only [step, checkLimit_eq, Event.listing?, hlimit, if_true, Option.elim_some,
        Exchange.sent_heard_call]
      exact filterMap_list?_map _
    · simp [step, checkLimit_eq, Event.listing?, hlimit, immediate]
  | showToken | regenerateToken =>
    simp [step, tokenRequested_requests, Event.listing?, List.filterMap_map, Function.comp_def,
      Request.list?]
  | listAnswered tag given =>
    simp only [step, Event.listing?, Option.elim_some, Exchange.sent_heard_answer]
    split <;> rfl
  | dumpAnswered serial given =>
    simp only [step]
    split
    · rfl
    · rw [received_requests]
      rfl
  | closeToken | tokenAnswered | downloadDump | dumpStored =>
    simp only [step]
    split <;> rfl

theorem step_token_requests (event : Event) :
    (c.step event).2.requests.filterMap Request.token? =
      event.token?.elim [] fun event => (Token.exchange.heard c.token event).sent := by
  cases event with
  | setView | setFilter =>
    simp [step, listRequested, Event.token?, List.filterMap_map, Function.comp_def, Request.token?]
  | setPage offset limit =>
    by_cases hlimit : Query.validLimit limit = true <;>
      simp [step, checkLimit_eq, Event.token?, hlimit, immediate, listRequested, List.filterMap_map,
        Function.comp_def, Request.token?]
  | showToken | regenerateToken =>
    simp [step, tokenRequested_requests, Event.token?, List.filterMap_map, Function.comp_def,
      Request.token?]
    rfl
  | closeToken =>
    simp only [step, Event.token?, Option.elim_some, Exchange.sent_heard_call]
    split <;> rfl
  | tokenAnswered serial given =>
    simp only [step, Event.token?, Option.elim_some, Exchange.sent_heard_answer]
    split <;> rfl
  | dumpAnswered serial given =>
    simp only [step]
    split
    · rfl
    · rw [received_requests]
      rfl
  | listAnswered | downloadDump | dumpStored =>
    simp only [step]
    split <;> rfl

theorem step_dump_requests (event : Event) :
    (c.step event).2.requests.filterMap Request.dump? =
      (event.dump? c.machines).elim [] fun event => (Dump.exchange.heard c.dumps event).sent := by
  cases event with
  | setView | setFilter =>
    simp [step, listRequested, Event.dump?, List.filterMap_map, Function.comp_def, Request.dump?]
  | setPage offset limit =>
    by_cases hlimit : Query.validLimit limit = true <;>
      simp [step, checkLimit_eq, Event.dump?, hlimit, immediate, listRequested, List.filterMap_map,
        Function.comp_def, Request.dump?]
  | showToken | regenerateToken =>
    simp [step, tokenRequested_requests, Event.dump?, List.filterMap_map, Function.comp_def,
      Request.dump?]
  | downloadDump machine =>
    by_cases hlisted : (c.listing.tracker.listing.find? machine).isSome = true <;>
      simp only [step, Event.dump?, machines, hlisted] <;> rfl
  | dumpAnswered serial given =>
    simp only [step, Event.dump?, Option.elim_some, Exchange.sent_heard_answer]
    split
    · rfl
    · rw [received_requests]
      rfl
  | closeToken | listAnswered | tokenAnswered | dumpStored =>
    simp only [step]
    split <;> rfl

/-! ### Runs -/

theorem run_listing (events : List Event) : (c.run events).1.listing =
    Listing.exchange.run c.listing (events.filterMap Event.listing?) := by
  rw [run_eq_foldl]
  exact Listing.exchange.run_filterMap listing (fun c event => (c.step event).1) Event.listing?
    step_listing c events

theorem run_token (events : List Event) : (c.run events).1.token =
    Token.exchange.run c.token (events.filterMap Event.token?) := by
  rw [run_eq_foldl]
  exact Token.exchange.run_filterMap token (fun c event => (c.step event).1) Event.token?
    step_token c events

theorem listed_append (earlier later : List Event) :
    c.listed (earlier ++ later) = (c.run earlier).1.listed later ++ c.listed earlier := by
  rw [listed, listed, listed, List.filterMap_append, Exchange.history_append, run_listing]

/-- The requests in the history of a part are those that the controller sent for it. -/
theorem sent_history {State Called Sent Answer : Type} (x : Exchange State Called Sent Answer)
    (part : Controller → State) (event? : Event → Option (Exchange.Event Called Answer))
    (pick : Request → Option Sent)
    (hpart : ∀ c event, part (step c event).1 = (event? event).elim (part c) (x.after (part c)))
    (hsent : ∀ c event, (step c event).2.requests.filterMap pick =
      (event? event).elim [] fun event => (x.heard (part c) event).sent)
    (events : List Event) : (x.history (part c) (events.filterMap event?)).sent =
      ((c.run events).2.flatMap Effects.requests).filterMap pick := by
  induction events generalizing c with
  | nil => rfl
  | cons event events ih =>
    have hrest := ih (c.step event).1
    rw [hpart] at hrest
    have hfirst := hsent c event
    simp only [run, List.flatMap_cons, List.filterMap_append, hfirst, ← hrest]
    cases hevent : event? event with
    | none => simp [hevent]
    | some heard => simp [hevent, Exchange.history, History.sent_append]

theorem sent_listed (events : List Event) : (c.listed events).sent =
    ((c.run events).2.flatMap Effects.requests).filterMap Request.list? :=
  c.sent_history Listing.exchange listing Event.listing? Request.list? step_listing
    step_list_requests events

theorem sent_instructed (events : List Event) : (c.instructed events).sent =
    ((c.run events).2.flatMap Effects.requests).filterMap Request.token? :=
  c.sent_history Token.exchange token Event.token? Request.token? step_token step_token_requests
    events

/-- In every part the open requests are in order, and each dump that is being stored came in answer
to a request of its own. -/
structure InOrder (c : Controller) : Prop where
  listing : Listing.exchange.InOrder c.listing
  token : Token.exchange.InOrder c.token
  dumps : Dump.exchange.InOrder c.dumps
  given : ∀ arrival ∈ c.storing, arrival.serial ≤ c.dumps.issued
  closed : ∀ arrival ∈ c.storing, c.dumps.open? arrival.serial = none
  apart : (c.storing.map Dump.Arrival.serial).Nodup

variable {c} {event : Event}

/-- A dump is handed over in answer to its request only. -/
theorem arrivals_cases (c : Controller) (event : Event) : (c.step event).2.arrivals = [] ∨
    ∃ serial artifact request, event = .dumpAnswered serial (.ok artifact) ∧
      c.dumps.open? serial = some request ∧
      (c.step event).2.arrivals = [⟨serial, artifact⟩] := by
  cases event with
  | dumpAnswered serial given =>
    cases hopen : c.dumps.open? serial with
    | none =>
      refine .inl ?_
      simp only [step, hopen]
    | some request =>
      cases given with
      | ok artifact =>
        refine .inr ⟨serial, artifact, request, rfl, hopen, ?_⟩
        simp only [step, hopen]
        rfl
      | error failure =>
        refine .inl ?_
        simp only [step, hopen]
        rfl
  | setView | setFilter => exact .inl rfl
  | showToken | regenerateToken =>
    refine .inl ?_
    simp only [step, tokenRequested]
    split <;> rfl
  | setPage | closeToken | listAnswered | tokenAnswered | downloadDump | dumpStored =>
    refine .inl ?_
    simp only [step]
    split <;> rfl

/-- What is being stored after an event was being stored before, or came in answer to a request that
was open. -/
theorem mem_storing_step {arrival : Dump.Arrival} (hmem : arrival ∈ (c.step event).1.storing) :
    arrival ∈ c.storing ∨ ∃ request, event = .dumpAnswered arrival.serial (.ok arrival.artifact) ∧
      c.dumps.open? arrival.serial = some request := by
  rw [step_storing, List.mem_append] at hmem
  rcases hmem with hmem | hmem
  · exact .inl (List.mem_filter.1 hmem).1
  · rcases c.arrivals_cases event with hnone | ⟨serial, artifact, request, rfl, hopen, hone⟩
    · rw [hnone] at hmem
      cases hmem
    · rw [hone, List.mem_singleton] at hmem
      rw [hmem]
      exact .inr ⟨request, rfl, hopen⟩

theorem issued_le_step (c : Controller) (event : Event) :
    c.dumps.issued ≤ (c.step event).1.dumps.issued := by
  rw [step_dumps]
  cases event.dump? c.machines with
  | none => exact Nat.le_refl _
  | some part => exact Dump.exchange.issued_le_after c.dumps part

theorem closed_step {serial : Nat} (hclosed : c.dumps.open? serial = none)
    (hgiven : serial ≤ c.dumps.issued) : (c.step event).1.dumps.open? serial = none := by
  rw [step_dumps]
  cases event.dump? c.machines with
  | none => exact hclosed
  | some part => exact Dump.exchange.closed_after hclosed hgiven part

theorem InOrder.step (hinOrder : InOrder c) (event : Event) : InOrder (c.step event).1 where
  listing := by
    rw [step_listing]
    cases event.listing? with
    | none => exact hinOrder.listing
    | some part => exact hinOrder.listing.after part
  token := by
    rw [step_token]
    cases event.token? with
    | none => exact hinOrder.token
    | some part => exact hinOrder.token.after part
  dumps := by
    rw [step_dumps]
    cases event.dump? c.machines with
    | none => exact hinOrder.dumps
    | some part => exact hinOrder.dumps.after part
  given arrival hmem := by
    refine Nat.le_trans ?_ (c.issued_le_step event)
    rcases mem_storing_step hmem with hmem | ⟨request, -, hopen⟩
    · exact hinOrder.given arrival hmem
    · obtain ⟨hpending, hserial⟩ := Dump.exchange.number_of_open? hopen
      exact hserial ▸ hinOrder.dumps.le_issued request hpending
  closed arrival hmem := by
    rcases mem_storing_step hmem with hmem | ⟨request, rfl, hopen⟩
    · exact closed_step (hinOrder.closed arrival hmem) (hinOrder.given arrival hmem)
    · rw [step_dumps]
      exact Dump.exchange.open?_after_answer ..
  apart := by
    have hkept := hinOrder.apart.sublist (List.Sublist.map Dump.Arrival.serial
      (List.filter_sublist (p := fun arrival => !event.stores arrival)))
    rw [step_storing, List.map_append]
    rcases c.arrivals_cases event with hnone | ⟨serial, artifact, request, -, hopen, hone⟩
    · rwa [hnone, List.map_nil, List.append_nil]
    · rw [hone, List.map_singleton, List.nodup_append]
      refine ⟨hkept, List.pairwise_singleton _ _, ?_⟩
      rintro other hother new hnew rfl
      obtain ⟨arrival, hmem, hserial⟩ := List.mem_map.1 hother
      obtain rfl : other = serial := List.mem_singleton.1 hnew
      rw [← hserial, hinOrder.closed arrival (List.mem_filter.1 hmem).1] at hopen
      cases hopen

theorem inOrder_run {setup : Setup} {start : Controller} (hstart : initial setup = .ok start)
    (events : List Event) : InOrder (start.run events).1 := by
  have hinitial : InOrder start := by
    rw [initial_eq_ok hstart]
    exact ⟨Exchange.inOrder_of_pending_nil rfl, Exchange.inOrder_of_pending_nil rfl,
      Exchange.inOrder_of_pending_nil rfl, nofun, nofun, .nil⟩
  clear hstart
  induction events generalizing start with
  | nil => exact hinitial
  | cons event events ih => exact ih (hinitial.step event)

end Controller

end FleetConsole
