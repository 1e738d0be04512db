import FleetConsole.Proofs.Controller.Instruction
import FleetConsole.Proofs.Controller.Report
import Mathlib.Data.List.Basic

/-!
# What operations wait for

An operation waits for the answers to its requests, and a download then waits for its dump to be
stored. Somebody who sees the events, the requests that are sent and the dumps that are handed over
can keep a list of all that is waited for (`awaited`); the open requests of every part and the dumps
being stored can be read off it (`Keeps`).

`Traffic` lists everything that an event can do about it: nothing, or it begins one operation and
sends all of its requests, or it brings a dump which then has to be stored, or it ends the wait for
one thing.
-/

namespace FleetConsole

/-- What an operation waits for: the answer to a request, or the end of storing a dump. -/
inductive Awaited where
  | answer (request : Request)
  | storage (arrival : Dump.Arrival)
  deriving DecidableEq

namespace Awaited

def operation : Awaited → Operation
  | answer request => request.operation
  | storage arrival => .dump arrival.serial

def request? : Awaited → Option Request
  | answer request => some request
  | storage _ => none

def arrival? : Awaited → Option Dump.Arrival
  | answer _ => none
  | storage arrival => some arrival

/-- The request of the listing whose answer is waited for. -/
def list? (awaited : Awaited) : Option Listing.Request := awaited.request?.bind Request.list?

def token? (awaited : Awaited) : Option Token.Request := awaited.request?.bind Request.token?

def dump? (awaited : Awaited) : Option Dump.Request := awaited.request?.bind Request.dump?

theorem length_eq (waiting : List Awaited) : waiting.length =
    (waiting.filterMap request?).length + (waiting.filterMap arrival?).length := by
  induction waiting with
  | nil => rfl
  | cons awaited waiting ih =>
    cases awaited <;> simp only [List.filterMap_cons, request?, arrival?, List.length_cons, ih] <;>
      omega

theorem eq_of_list? {awaited : Awaited} {request : Listing.Request}
    (hlist : awaited.list? = some request) : awaited = .answer (.list request) := by
  rcases awaited with (_ | _ | _) | _ <;> cases hlist
  rfl

theorem eq_of_token? {awaited : Awaited} {request : Token.Request}
    (htoken : awaited.token? = some request) : awaited = .answer (.token request) := by
  rcases awaited with (_ | _ | _) | _ <;> cases htoken
  rfl

theorem eq_of_dump? {awaited : Awaited} {request : Dump.Request}
    (hdump : awaited.dump? = some request) : awaited = .answer (.dump request) := by
  rcases awaited with (_ | _ | _) | _ <;> cases hdump
  rfl

theorem eq_of_request? {awaited : Awaited} {request : Request}
    (hrequest : awaited.request? = some request) : awaited = .answer request := by
  cases awaited <;> cases hrequest
  rfl

theorem eq_of_arrival? {awaited : Awaited} {arrival : Dump.Arrival}
    (harrival : awaited.arrival? = some arrival) : awaited = .storage arrival := by
  cases awaited <;> cases harrival
  rfl

/-- What is picked from requests and dumps that are waited for. -/
theorem filterMap_sent {α : Type} (pick : Request → Option α) (requests : List Request)
    (arrivals : List Dump.Arrival) :
    (requests.map answer ++ arrivals.map storage).filterMap
        (fun awaited => awaited.request?.bind pick) = requests.filterMap pick := by
  simp [List.filterMap_map, request?]

theorem filterMap_arrived (requests : List Request) (arrivals : List Dump.Arrival) :
    (requests.map answer ++ arrivals.map storage).filterMap arrival? = arrivals := by
  simp [List.filterMap_map, Function.comp_def, arrival?]

end Awaited

/-- The operation that begins to wait. -/
def Progress.begun? : Progress → Option Operation
  | .waiting operation => some operation
  | _ => Option.none

/-- The operation that is over after it waited. -/
def Progress.completed? : Progress → Option Operation
  | .finished operation _ => some operation
  | _ => Option.none

theorem filterMap_filter_of_eq {α β : Type} {pick : α → Option β} {keep : α → Bool}
    {keep' : β → Bool} (hkeep : ∀ x y, pick x = some y → keep x = keep' y) (xs : List α) :
    (xs.filter keep).filterMap pick = (xs.filterMap pick).filter keep' := by
  induction xs with
  | nil => rfl
  | cons x xs ih =>
    cases hpick : pick x with
    | none => cases hx : keep x <;> simp [hx, hpick, ih]
    | some y =>
      have hy := hkeep x y hpick
      cases hx : keep x <;> simp [hx, hpick, ih, ← hy]

namespace Controller

/-- Whether an event is the answer to a request. -/
def Event.answers : Event → Request → Bool
  | .listAnswered tag _, .list request => request.tag = tag
  | .tokenAnswered serial _, .token request => request.serial = serial
  | .dumpAnswered serial _, .dump request => request.serial = serial
  | _, _ => false

/-- Whether an event is what is waited for. -/
def Event.ends (event : Event) : Awaited → Bool
  | .answer request => event.answers request
  | .storage arrival => event.stores arrival

/-- What is waited for after an event, to somebody who sees it, the requests that it sends and the
dumps that it hands over. -/
def awaiting (waiting : List Awaited) (happened : Event × Effects) : List Awaited :=
  waiting.filter (fun awaited => !happened.1.ends awaited) ++
    (happened.2.requests.map .answer ++ happened.2.arrivals.map .storage)

/-- What is still waited for after a run. -/
def awaited (c : Controller) (events : List Event) : List Awaited :=
  (events.zip (c.run events).2).foldl awaiting []

/-- The requests that were sent in a run and have not been answered. -/
def outstanding (c : Controller) (events : List Event) : List Request :=
  (c.awaited events).filterMap Awaited.request?

/-- The dumps that came in a run and are still being stored. -/
def delivering (c : Controller) (events : List Event) : List Dump.Arrival :=
  (c.awaited events).filterMap Awaited.arrival?

/-- A list of what is waited for has the open requests of every part and the dumps being stored, and
nothing else. -/
structure Keeps (waiting : List Awaited) (c : Controller) : Prop where
  list : waiting.filterMap Awaited.list? = c.listing.pending
  token : waiting.filterMap Awaited.token? = c.token.pending
  dump : waiting.filterMap Awaited.dump? = c.dumps.pending
  storing : waiting.filterMap Awaited.arrival? = c.storing

variable {c : Controller} {event : Event} {waiting : List Awaited}

theorem run_effects_length (c : Controller) (events : List Event) :
    (c.run events).2.length = events.length := by
  induction events generalizing c with
  | nil => rfl
  | cons event events ih => exact congrArg (· + 1) (ih _)

theorem awaited_concat (c : Controller) (events : List Event) (event : Event) :
    c.awaited (events ++ [event]) =
      awaiting (c.awaited events) (event, ((c.run events).1.step event).2) := by
  rw [awaited, run_effects_append, List.zip_append (run_effects_length c events).symm,
    List.foldl_append]
  rfl

theorem answers_list (event : Event) (request : Listing.Request) :
    event.answers (.list request) = event.listing?.any fun part => part.settles request.tag := by
  cases event with
  | setPage offset limit =>
    simp only [Event.listing?]
    split <;> rfl
  | _ => rfl

theorem answers_token (event : Event) (request : Token.Request) :
    event.answers (.token request) = event.token?.any fun part => part.settles request.serial := by
  cases event <;> rfl

theorem answers_dump (event : Event) (displayed : Listing) (request : Dump.Request) :
    event.answers (.dump request) =
      (event.dump? displayed).any fun part => part.settles request.serial := by
  cases event with
  | downloadDump machine =>
    simp only [Event.dump?]
    split <;> rfl
  | _ => rfl

/-- What is waited for of a part after an event is what is open in the part then. -/
theorem filterMap_awaiting {State Called Sent Answer : Type}
    (x : Exchange State Called Sent Answer) {s : State} {pick : Request → Option Sent}
    {wrap : Sent → Awaited}
    (hpick : ∀ awaited sent, awaited.request?.bind pick = some sent → awaited = wrap sent)
    {part : Option (Exchange.Event Called Answer)} {effects : Effects}
    (hends : ∀ sent, event.ends (wrap sent) = part.any fun part => part.settles (x.number sent))
    (hsent : effects.requests.filterMap pick = part.elim [] fun part => (x.heard s part).sent)
    (hwaiting : waiting.filterMap (fun awaited => awaited.request?.bind pick) = x.pending s) :
    (awaiting waiting (event, effects)).filterMap (fun awaited => awaited.request?.bind pick) =
      x.pending (part.elim s (x.after s)) := by
  have hkeep : ∀ awaited sent, awaited.request?.bind pick = some sent →
      (!event.ends awaited) = !part.any fun part => part.settles (x.number sent) := by
    intro awaited sent hsame
    rw [hpick awaited sent hsame, hends]
  rw [awaiting, List.filterMap_append, filterMap_filter_of_eq hkeep, hwaiting,
    Awaited.filterMap_sent, hsent]
  cases part with
  | none => simp
  | some part => exact (x.pending_after s part).symm

theorem Keeps.step (hkeeps : Keeps waiting c) (event : Event) :
    Keeps (awaiting waiting (event, (c.step event).2)) (c.step event).1 where
  list := by
    rw [step_listing]
    exact filterMap_awaiting Listing.exchange (fun _ _ => Awaited.eq_of_list?)
      (answers_list event) (c.step_list_requests event) hkeeps.list
  token := by
    rw [step_token]
    exact filterMap_awaiting Token.exchange (fun _ _ => Awaited.eq_of_token?)
      (answers_token event) (c.step_token_requests event) hkeeps.token
  dump := by
    rw [step_dumps]
    exact filterMap_awaiting Dump.exchange (fun _ _ => Awaited.eq_of_dump?)
      (answers_dump event c.machines) (c.step_dump_requests event) hkeeps.dump
  storing := by
    have hkeep : ∀ awaited arrival, awaited.arrival? = some arrival →
        (!event.ends awaited) = !event.stores arrival := by
      intro awaited arrival hsame
      rw [Awaited.eq_of_arrival? hsame]
      rfl
    rw [awaiting, List.filterMap_append, filterMap_filter_of_eq hkeep, hkeeps.storing,
      Awaited.filterMap_arrived, step_storing]

/-- An operation of the listing waits as long as one of its requests does. -/
theorem Keeps.isWaiting_iff (hkeeps : Keeps waiting c) (operation : Nat) :
    c.listing.isWaiting operation = true ↔
      ∃ awaited ∈ waiting, awaited.operation = .list operation := by
  rw [Listing.Desk.isWaiting, ← hkeeps.list, List.any_eq_true]
  constructor
  · rintro ⟨request, hmem, hoperation⟩
    obtain ⟨awaited, hawaited, hlist⟩ := List.mem_filterMap.1 hmem
    rw [Awaited.eq_of_list? hlist] at hawaited
    exact ⟨_, hawaited, congrArg Operation.list (by simpa using hoperation)⟩
  · rintro ⟨awaited, hmem, hoperation⟩
    rcases awaited with (request | _ | _) | _ <;> cases hoperation
    exact ⟨_, List.mem_filterMap.2 ⟨_, hmem, rfl⟩, decide_eq_true rfl⟩

/-- A dump is either on its way or being stored. -/
theorem Keeps.storage_of_operation (hkeeps : Keeps waiting c) (hinOrder : InOrder c)
    {arrival : Dump.Arrival} (hstoring : arrival ∈ c.storing) {awaited : Awaited}
    (hmem : awaited ∈ waiting) (hoperation : awaited.operation = .dump arrival.serial) :
    ∃ other ∈ c.storing, awaited = .storage other ∧ other.serial = arrival.serial := by
  rcases awaited with (_ | _ | request) | other
  · cases hoperation
  · cases hoperation
  · have hpending : request ∈ c.dumps.pending := by
      rw [← hkeeps.dump]
      exact List.mem_filterMap.2 ⟨_, hmem, rfl⟩
    have hclosed := hinOrder.closed arrival hstoring
    rw [Dump.Desk.open?, List.find?_eq_none] at hclosed
    exact absurd (decide_eq_true (Operation.dump.inj hoperation)) (hclosed request hpending)
  · refine ⟨other, ?_, rfl, Operation.dump.inj hoperation⟩
    rw [← hkeeps.storing]
    exact List.mem_filterMap.2 ⟨_, hmem, rfl⟩

/-! ### What an event does about what is waited for -/

/-- Whether an operation has a number that has been given. -/
def Known (c : Controller) : Operation → Prop
  | .list tag => tag ≤ c.listing.tracker.issued
  | .token serial => serial ≤ c.token.issued
  | .dump serial => serial ≤ c.dumps.issued

theorem Known.step {operation : Operation} (hknown : c.Known operation) (event : Event) :
    (c.step event).1.Known operation := by
  cases operation with
  | list tag =>
    refine Nat.le_trans hknown ?_
    rw [step_listing]
    cases event.listing? with
    | none => exact Nat.le_refl _
    | some part => exact Listing.exchange.issued_le_after c.listing part
  | token serial =>
    refine Nat.le_trans hknown ?_
    rw [step_token]
    cases event.token? with
    | none => exact Nat.le_refl _
    | some part => exact Token.exchange.issued_le_after c.token part
  | dump serial =>
    refine Nat.le_trans hknown ?_
    rw [step_dumps]
    cases event.dump? c.machines with
    | none => exact Nat.le_refl _
    | some part => exact Dump.exchange.issued_le_after c.dumps part

/-- Whether an event is an operation that could wait. -/
def Event.begins : Event → Bool
  | .setView _ | .setPage _ _ | .setFilter _ | .showToken | .regenerateToken | .downloadDump _ =>
    true
  | .closeToken | .listAnswered _ _ | .tokenAnswered _ _ | .dumpAnswered _ _ | .dumpStored _ _ =>
    false

theorem ends_of_begins (hbegins : event.begins = true) (awaited : Awaited) :
    event.ends awaited = false := by
  cases event with
  | closeToken | listAnswered | tokenAnswered | dumpAnswered | dumpStored => cases hbegins
  | _ => rcases awaited with (_ | _ | _) | _ <;> rfl

/-- Everything that an event can do about what is waited for. -/
inductive Traffic (c : Controller) (waiting : List Awaited) (event : Event) (next : Controller)
    (effects : Effects) : Prop
  | quiet (hends : ∀ awaited ∈ waiting, event.ends awaited = false)
      (hrequests : effects.requests = []) (harrivals : effects.arrivals = [])
      (hgauge : next.gauge = c.gauge) (hpublished : effects.published.loading = false)
      (hprogress : effects.progress = if event.begins then .immediate else .none)
  | sent (operation : Operation) (hbegins : event.begins = true)
      (hsome : effects.requests ≠ []) (harrivals : effects.arrivals = [])
      (hoperation : ∀ request ∈ effects.requests, request.operation = operation)
      (hnew : ¬ c.Known operation) (hknown : next.Known operation)
      (hgauge : next.gauge.inFlight = c.gauge.inFlight + effects.requests.length)
      (hpublished : effects.published.loading = true)
      (hprogress : effects.progress = .waiting operation)
  | arrived (request : Request) (arrival : Dump.Arrival)
      (hone : waiting.filter event.ends = [.answer request]) (hrequests : effects.requests = [])
      (harrivals : effects.arrivals = [arrival])
      (hoperation : request.operation = .dump arrival.serial)
      (hgauge : next.gauge = c.gauge) (hpublished : effects.published.loading = false)
      (hprogress : effects.progress = .none)
  | ended (awaited : Awaited) (hone : waiting.filter event.ends = [awaited])
      (hrequests : effects.requests = []) (harrivals : effects.arrivals = [])
      (hgauge : next.gauge = c.gauge.finish) (hpublished : effects.published.loading = true)
      (hprogress : ((∃ other ∈ waiting.filter fun other => !event.ends other,
          other.operation = awaited.operation) ∧ effects.progress = .none) ∨
        (∀ other ∈ waiting.filter fun other => !event.ends other,
          other.operation ≠ awaited.operation) ∧
          ∃ path, effects.progress = .finished awaited.operation path)

theorem traffic_immediate (hbegins : event.begins = true) (notifications : List Notification) :
    Traffic c waiting event (c.immediate notifications).1 (c.immediate notifications).2 := by
  refine .quiet (fun awaited _ => ends_of_begins hbegins awaited) rfl rfl rfl rfl ?_
  rw [hbegins]
  rfl

theorem traffic_nothing (hbegins : event.begins = false)
    (hends : ∀ awaited ∈ waiting, event.ends awaited = false) : Traffic c waiting event c {} := by
  refine .quiet hends rfl rfl rfl rfl ?_
  rw [hbegins]
  rfl

theorem traffic_listRequested (hbegins : event.begins = true) (selection : Selection)
    (count : Option Query) :
    Traffic c waiting event (c.listRequested (c.listing.request selection count)).1
      (c.listRequested (c.listing.request selection count)).2 := by
  cases count with
  | none =>
    refine .sent (.list (c.listing.tracker.issued + 1)) hbegins
      (List.cons_ne_nil _ _) rfl ?_ (Nat.not_succ_le_self _) (Nat.le_refl _) rfl rfl rfl
    intro request hrequest
    cases List.mem_singleton.1 hrequest
    rfl
  | some query =>
    refine .sent (.list (c.listing.tracker.issued + 2)) hbegins
      (List.cons_ne_nil _ _) rfl ?_ ?_ (Nat.le_refl _) rfl rfl rfl
    · intro request hrequest
      rcases List.mem_cons.1 hrequest with rfl | hrequest
      · rfl
      · cases List.mem_singleton.1 hrequest
        rfl
    · show ¬ c.listing.tracker.issued + 2 ≤ c.listing.tracker.issued
      omega

theorem traffic_tokenRequested {begun : Option (Token.Desk × Token.Request)}
    (hbegins : event.begins = true)
    (hbegun : ∀ next request, begun = some (next, request) →
      request.serial = c.token.issued + 1 ∧ next.issued = c.token.issued + 1) :
    Traffic c waiting event (c.tokenRequested begun).1 (c.tokenRequested begun).2 := by
  cases begun with
  | none => exact traffic_immediate hbegins []
  | some sent =>
    obtain ⟨next, request⟩ := sent
    obtain ⟨hserial, hissued⟩ := hbegun next request rfl
    refine .sent (.token request.serial) hbegins (by simp [tokenRequested]) rfl ?_ ?_ ?_ rfl rfl rfl
    · simp [tokenRequested, Request.operation]
    · show ¬ request.serial ≤ c.token.issued
      omega
    · show request.serial ≤ next.issued
      omega

section Ends

variable {α : Type} {pick : Awaited → Option α} {wrap : α → Awaited} {mine : α → Bool}
  {kept : List α}

/-- Events that end the wait for one kind of things end it for what they do of that kind. -/
theorem filter_ends (hpick : ∀ awaited x, pick awaited = some x → awaited = wrap x)
    (hwaiting : waiting.filterMap pick = kept)
    (hkind : ∀ awaited, event.ends awaited = true → (pick awaited).isSome = true)
    (hmine : ∀ x, event.ends (wrap x) = mine x) :
    waiting.filter event.ends = (kept.filter mine).map wrap := by
  rw [← hwaiting]
  clear hwaiting
  induction waiting with
  | nil => rfl
  | cons awaited waiting ih =>
    cases hfound : pick awaited with
    | none =>
      have hnot : ¬ event.ends awaited = true := fun hends => by
        simpa [hfound] using hkind awaited hends
      rw [List.filter_cons_of_neg hnot, List.filterMap_cons_none hfound, ih]
    | some x =>
      rw [List.filterMap_cons_some hfound]
      have hsame := hmine x
      rw [← hpick awaited x hfound] at hsame
      cases hx : mine x with
      | false => rw [List.filter_cons_of_neg (by simp [hsame, hx]),
          List.filter_cons_of_neg (by simp [hx]), ih]
      | true => rw [List.filter_cons_of_pos (hsame.trans hx), List.filter_cons_of_pos hx, ih,
          List.map_cons, hpick awaited x hfound]

theorem ends_eq_false (hnone : waiting.filter event.ends = []) :
    ∀ awaited ∈ waiting, event.ends awaited = false := by
  simpa using hnone

end Ends

section Answered

variable {State Called Sent Answer : Type} (x : Exchange State Called Sent Answer) {s : State}
  {pick : Awaited → Option Sent} {wrap : Sent → Awaited}

/-- What an answer to a request of a part puts an end to: the wait for that request, if it is open.
-/
theorem filter_answered (event : Event) (number : Nat) (hinOrder : x.InOrder s)
    (hpick : ∀ awaited sent, pick awaited = some sent → awaited = wrap sent)
    (hwaiting : waiting.filterMap pick = x.pending s)
    (hkind : ∀ awaited, event.ends awaited = true → (pick awaited).isSome = true)
    (hnumber : ∀ sent, event.ends (wrap sent) = decide (x.number sent = number)) :
    waiting.filter event.ends = ((x.open? s number).map wrap).toList := by
  rw [filter_ends hpick hwaiting hkind hnumber]
  cases hopen : x.open? s number with
  | none =>
    rw [Exchange.open?, List.find?_eq_none] at hopen
    rw [List.filter_eq_nil_iff.2 hopen]
    rfl
  | some sent =>
    rw [hinOrder.filter_settles hopen]
    rfl

end Answered

/-- What the end of storing a dump puts an end to. -/
theorem filter_stored (hkeeps : Keeps waiting c) (hinOrder : InOrder c) (serial : Nat)
    (result : Except Failure String) :
    waiting.filter (Event.dumpStored serial result).ends =
      ((c.arrival? serial).map .storage).toList := by
  have hkind : ∀ awaited, (Event.dumpStored serial result).ends awaited = true →
      awaited.arrival?.isSome = true := by
    rintro ((_ | _ | _) | _) hends <;> first | rfl | cases hends
  have hmine : ∀ arrival, (Event.dumpStored serial result).ends (.storage arrival) =
      decide (arrival.serial = serial) := fun _ => rfl
  rw [filter_ends (fun _ _ => Awaited.eq_of_arrival?) hkeeps.storing hkind hmine]
  have hapart := hinOrder.apart
  rw [arrival?]
  generalize c.storing = storing at hapart
  induction storing with
  | nil => rfl
  | cons arrival storing ih =>
    rw [List.map_cons, List.nodup_cons] at hapart
    by_cases hserial : arrival.serial = serial
    · have hnone : storing.filter (fun other => decide (other.serial = serial)) = [] := by
        refine List.filter_eq_nil_iff.2 fun other hother hsame => hapart.1 ?_
        rw [hserial, ← of_decide_eq_true hsame]
        exact List.mem_map_of_mem hother
      rw [List.filter_cons_of_pos (by simpa using hserial),
        List.find?_cons_of_pos (by simpa using hserial), hnone]
      rfl
    · rw [List.filter_cons_of_neg (by simpa using hserial),
        List.find?_cons_of_neg (by simpa using hserial)]
      exact ih hapart.2

/-- What is waited for alone by its operation leaves nothing of that when it ends. -/
theorem operation_ne_of_left {awaited : Awaited}
    (halone : ∀ other ∈ waiting, other.operation = awaited.operation → event.ends other = true) :
    ∀ other ∈ waiting.filter fun other => !event.ends other,
      other.operation ≠ awaited.operation := by
  intro other hmem hoperation
  obtain ⟨hother, hleft⟩ := List.mem_filter.1 hmem
  rw [halone other hother hoperation] at hleft
  cases hleft

theorem mem_of_filter_ends {awaited : Awaited} (hone : waiting.filter event.ends = [awaited]) :
    awaited ∈ waiting ∧ event.ends awaited = true := by
  rw [← List.mem_filter, hone]
  exact List.mem_cons_self

/-- What an event leaves of what is waited for. -/
theorem mem_left {awaited other : Awaited} (hone : waiting.filter event.ends = [awaited]) :
    other ∈ waiting.filter (fun other => !event.ends other) ↔
      other ∈ waiting ∧ other ≠ awaited := by
  rw [List.mem_filter, Bool.not_eq_true']
  refine and_congr_right fun hmem => ?_
  rw [← Bool.not_eq_true]
  refine not_congr ⟨fun hends => ?_, ?_⟩
  · have hfound := List.mem_filter.2 ⟨hmem, hends⟩
    rwa [hone, List.mem_singleton] at hfound
  · rintro rfl
    exact (mem_of_filter_ends hone).2

theorem traffic (hkeeps : Keeps waiting c) (hinOrder : InOrder c) (event : Event) :
    Traffic c waiting event (c.step event).1 (c.step event).2 := by
  have hafter := hkeeps.step event
  cases event with
  | setView view => exact traffic_listRequested rfl _ _
  | setFilter text => exact traffic_listRequested rfl _ _
  | setPage offset limit =>
    by_cases hlimit : 1 ≤ limit ∧ limit ≤ 100
    · rw [← Query.validLimit_iff] at hlimit
      simp only [step, checkLimit_eq, hlimit, if_true]
      exact traffic_listRequested rfl _ _
    · rw [step_setPage_refused hlimit]
      exact traffic_immediate rfl _
  | showToken =>
    refine traffic_tokenRequested rfl fun next request hbegun => ?_
    obtain ⟨-, rfl, rfl⟩ := Token.Desk.show?_eq_some.1 hbegun
    exact ⟨rfl, rfl⟩
  | regenerateToken =>
    refine traffic_tokenRequested rfl fun next request hbegun => ?_
    obtain ⟨-, rfl, rfl⟩ := Token.Desk.regenerate?_eq_some.1 hbegun
    exact ⟨rfl, rfl⟩
  | closeToken =>
    refine .quiet (fun awaited _ => by rcases awaited with (_ | _ | _) | _ <;> rfl) ?_ ?_ ?_ ?_ ?_
    all_goals
      simp only [step]
      split <;> rfl
  | downloadDump machine =>
    by_cases hlisted : (c.listing.tracker.listing.find? machine).isSome = true
    · simp only [step, hlisted, if_true]
      refine .sent (.dump (c.dumps.issued + 1)) rfl (List.cons_ne_nil _ _) rfl ?_
        (Nat.not_succ_le_self _) (Nat.le_refl _) rfl rfl rfl
      intro request hrequest
      cases List.mem_singleton.1 hrequest
      rfl
    · simp only [step, hlisted]
      exact traffic_immediate rfl _
  -- The operations of the listing may have two requests, so an answer need not be the last one. The
  -- others wait for one thing at a time, and for nothing more once that has ended.
  | listAnswered tag given =>
    have hends := filter_answered Listing.exchange (.listAnswered tag given) tag
      hinOrder.listing (fun _ _ => Awaited.eq_of_list?) hkeeps.list
      (by rintro ((_ | _ | _) | _) hends <;> first | rfl | cases hends) fun _ => rfl
    rw [Listing.exchange_open?] at hends
    cases hopen : c.listing.open? tag with
    | none =>
      rw [hopen] at hends
      simp only [step, hopen]
      exact traffic_nothing rfl (ends_eq_false hends)
    | some request =>
      rw [hopen] at hends
      have hwaits := hafter.isWaiting_iff request.operation
      simp only [step, hopen, awaiting, List.map_nil, List.append_nil] at hwaits ⊢
      refine .ended _ hends rfl rfl rfl rfl ?_
      split
      · exact .inl ⟨hwaits.1 ‹_›, rfl⟩
      · exact .inr ⟨fun other hmem hother => ‹¬ _› (hwaits.2 ⟨other, hmem, hother⟩), none, rfl⟩
  | tokenAnswered serial given =>
    have hends := filter_answered Token.exchange (.tokenAnswered serial given) serial
      hinOrder.token (fun _ _ => Awaited.eq_of_token?) hkeeps.token
      (by rintro ((_ | _ | _) | _) hends <;> first | rfl | cases hends) fun _ => rfl
    rw [Token.exchange_open?] at hends
    cases hopen : c.token.open? serial with
    | none =>
      rw [hopen] at hends
      simp only [step, hopen]
      exact traffic_nothing rfl (ends_eq_false hends)
    | some request =>
      rw [hopen] at hends
      obtain rfl : request.serial = serial := (Token.exchange.number_of_open? hopen).2
      simp only [step, hopen]
      refine .ended _ hends rfl rfl rfl rfl (.inr ⟨operation_ne_of_left ?_, _, rfl⟩)
      rintro ((_ | other | _) | _) - hoperation
      · cases hoperation
      · exact decide_eq_true (Operation.token.inj hoperation)
      · cases hoperation
      · cases hoperation
  | dumpAnswered serial given =>
    have hends := filter_answered Dump.exchange (.dumpAnswered serial given) serial
      hinOrder.dumps (fun _ _ => Awaited.eq_of_dump?) hkeeps.dump
      (by rintro ((_ | _ | _) | _) hends <;> first | rfl | cases hends) fun _ => rfl
    rw [Dump.exchange_open?] at hends
    cases hopen : c.dumps.open? serial with
    | none =>
      rw [hopen] at hends
      simp only [step, hopen]
      exact traffic_nothing rfl (ends_eq_false hends)
    | some request =>
      rw [hopen] at hends
      obtain rfl : request.serial = serial := (Dump.exchange.number_of_open? hopen).2
      simp only [step, hopen]
      cases given with
      | ok artifact => exact .arrived _ ⟨request.serial, artifact⟩ hends rfl rfl rfl rfl rfl rfl
      | error failure =>
        refine .ended _ hends rfl rfl rfl rfl (.inr ⟨operation_ne_of_left ?_, _, rfl⟩)
        intro other hmem hoperation
        rcases other with (_ | _ | other) | arrival
        · cases hoperation
        · cases hoperation
        · exact decide_eq_true (Operation.dump.inj hoperation)
        · have hstoring : arrival ∈ c.storing := by
            rw [← hkeeps.storing]
            exact List.mem_filterMap.2 ⟨_, hmem, rfl⟩
          have hclosed := hinOrder.closed arrival hstoring
          rw [Operation.dump.inj hoperation, hopen] at hclosed
          cases hclosed
  | dumpStored serial result =>
    have hends := filter_stored hkeeps hinOrder serial result
    cases harrival : c.arrival? serial with
    | none =>
      rw [harrival] at hends
      simp only [step, harrival]
      exact traffic_nothing rfl (ends_eq_false hends)
    | some arrival =>
      rw [harrival] at hends
      obtain rfl : arrival.serial = serial := by simpa using List.find?_some harrival
      simp only [step, harrival]
      refine .ended _ hends rfl rfl rfl rfl (.inr ⟨operation_ne_of_left ?_, _, rfl⟩)
      intro awaited hmem hoperation
      obtain ⟨other, -, rfl, hsame⟩ := hkeeps.storage_of_operation hinOrder
        (List.mem_of_find?_eq_some harrival) hmem hoperation
      exact decide_eq_true hsame

end Controller

end FleetConsole
