import FleetConsole.Proofs.Controller.Report

/-!
# The parts do not see each other

The three parts share the way out for their requests, the notifications and the gauge, but not what
they know. What is seen of the listing in a run is seen as well when all events that are not about
the listing are left out, and the same holds of the instruction. Only a download looks beyond its
part: whether a request for a dump goes out depends on what is on display at that moment. Hence the
dumps need the listing to be as it was, but not the instruction.

An event brings about nothing that is not about its own part (`about_step`), and what it brings
about depends on what that part knows. These two facts of one event are all that is needed to leave
the other events out of a run (`seen_filter`).
-/

namespace FleetConsole

/-- What requests, notifications and events are about. -/
inductive Topic where
  | listing
  | token
  | dumps
  deriving DecidableEq

def Request.topic : Request → Topic
  | .list _ => .listing
  | .token _ => .token
  | .dump _ => .dumps

/-- The path of a dump that was stored in a step. -/
def Effects.path? (effects : Effects) : Option String :=
  match effects.progress with
  | .finished _ path => path
  | _ => none

/-- What the download with a number returns in a step, if it does: perhaps a path. -/
def Effects.returned? (serial : Nat) (effects : Effects) : Option (Option String) :=
  match effects.progress with
  | .finished (.dump other) path => if other = serial then some path else none
  | _ => none

/-- The topic of a notification can be told from what was being done. -/
def Notification.topic? (n : Notification) : Option Topic :=
  if n.summary = Listing.Part.failureSummary .page ∨
      n.summary = Listing.Part.failureSummary .count ∨
      n.summary = Controller.invalidQuerySummary then some .listing
  else if n.summary = Token.Purpose.failureSummary (.fetch 0) ∨
      n.summary = Token.Purpose.failureSummary .regenerate then some .token
  else if n.summary = Dump.failureSummary then some .dumps
  else none

/-- Everything in the effects of an event is about one topic. -/
structure Effects.About (effects : Effects) (topic : Topic) : Prop where
  requests : ∀ request ∈ effects.requests, request.topic = topic
  notifications : ∀ n ∈ effects.notifications, n.topic? = some topic
  listing : effects.published.listing = true → topic = .listing
  token : effects.published.token = true → topic = .token
  path : effects.path?.isSome = true → topic = .dumps

theorem topic?_ofFailure_part (part : Listing.Part) (failure : Failure) :
    (Notification.ofFailure part.failureSummary failure).topic? = some .listing := by
  cases part <;> rfl

theorem topic?_ofFailure_purpose (purpose : Token.Purpose) (failure : Failure) :
    (Notification.ofFailure purpose.failureSummary failure).topic? = some .token := by
  cases purpose <;> rfl

theorem topic?_ofFailure_query (failure : Failure) :
    (Notification.ofFailure Controller.invalidQuerySummary failure).topic? = some .listing := rfl

theorem topic?_ofFailure_dump (failure : Failure) :
    (Notification.ofFailure Dump.failureSummary failure).topic? = some .dumps := rfl

theorem topic?_of_answer {desk : Listing.Desk} {request : Listing.Request}
    {given : Except Failure Page} {n : Notification}
    (hn : (desk.answer request given).notification = some n) : n.topic? = some .listing := by
  cases given with
  | ok page =>
    rw [Listing.Desk.answer_ok_notification] at hn
    cases hn
  | error failure =>
    rw [Listing.Desk.answer_error_notification] at hn
    obtain ⟨-, hn⟩ := Option.ite_none_right_eq_some.1 hn
    cases hn
    exact topic?_ofFailure_part ..

namespace Controller

def Event.topic : Event → Topic
  | .setView _ | .setPage _ _ | .setFilter _ | .listAnswered _ _ => .listing
  | .showToken | .regenerateToken | .closeToken | .tokenAnswered _ _ => .token
  | .downloadDump _ | .dumpAnswered _ _ | .dumpStored _ _ => .dumps

/-- What is seen of a part from outside. -/
inductive Sight (Sent Shown : Type) where
  | sent (request : Sent)
  | notified (notification : Notification)
  | shown (display : Shown)

/-- What is seen in a step of the part that a topic stands for. -/
def sights {Sent Shown : Type} (topic : Topic) (pick : Request → Option Sent)
    (display : Controller → Effects → Option Shown) (now : Controller × Effects) :
    List (Sight Sent Shown) :=
  (now.2.requests.filterMap pick).map .sent ++
    (now.2.notifications.filter fun n => n.topic? = some topic).map .notified ++
    ((display now.1 now.2).map .shown).toList

/-- Of the listing the page that is published is seen. -/
def listingSights : Controller × Effects → List (Sight Listing.Request Listing) :=
  sights .listing Request.list? fun c effects =>
    if effects.published.listing then some c.machines else none

/-- Of the instruction every state that is published is seen. -/
def tokenSights : Controller × Effects → List (Sight Token.Request Token.Instruction) :=
  sights .token Request.token? fun c effects =>
    if effects.published.token then some c.instruction else none

/-- Of the dumps the paths that downloads return are seen. -/
def dumpSights : Controller × Effects → List (Sight Dump.Request String) :=
  sights .dumps Request.dump? fun _ effects => effects.path?

/-- What is seen in a run, in order. -/
def seen {α : Type} (look : Controller × Effects → List α) (c : Controller) : List Event → List α
  | [] => []
  | event :: events => look (c.step event) ++ seen look (c.step event).1 events

/-! ### One event -/

variable {c d : Controller} {event : Event}

theorem about_nothing (topic : Topic) : Effects.About {} topic := by
  constructor <;> simp [Effects.path?]

theorem about_listRequested (made : Listing.Desk × List Listing.Request) :
    (c.listRequested made).2.About .listing := by
  constructor <;> simp [listRequested, Request.topic, Effects.path?]

theorem about_tokenRequested (begun : Option (Token.Desk × Token.Request)) :
    (c.tokenRequested begun).2.About .token := by
  cases begun <;> constructor <;> simp [tokenRequested, immediate, Request.topic, Effects.path?]

theorem about_immediate {topic : Topic} {n : Notification} (htopic : n.topic? = some topic) :
    (c.immediate [n]).2.About topic := by
  constructor <;> simp [immediate, htopic, Effects.path?]

theorem about_downloaded (serial : Nat) (result : Except Failure String) :
    (c.downloaded serial result).2.About .dumps := by
  cases result <;> constructor <;>
    simp [downloaded, Dump.report, Effects.path?, topic?_ofFailure_dump, Except.toOption]

theorem about_received (serial : Nat) (given : Except Failure Dump.Artifact) :
    (c.received serial given).2.About .dumps := by
  cases given with
  | ok artifact => constructor <;> simp [received, Effects.path?]
  | error failure => exact about_downloaded serial _

theorem about_step (c : Controller) (event : Event) : (c.step event).2.About event.topic := by
  cases event with
  | setView | setFilter => exact about_listRequested _
  | setPage offset limit =>
    simp only [step]
    split
    · exact about_listRequested _
    · exact about_immediate (topic?_ofFailure_query _)
  | showToken | regenerateToken => exact about_tokenRequested _
  | closeToken =>
    simp only [step]
    split
    · constructor <;> simp [Effects.path?, Event.topic]
    · exact about_nothing _
  | downloadDump machine =>
    simp only [step]
    split
    · constructor <;> simp [Effects.path?, Request.topic, Event.topic]
    · exact about_immediate (topic?_ofFailure_dump _)
  | listAnswered tag given =>
    simp only [step]
    split
    · exact about_nothing _
    · rename_i request hopen
      constructor
      · simp
      · simp only [Option.mem_toList]
        intro n hn
        exact topic?_of_answer hn
      · exact fun _ => rfl
      · simp
      · by_cases hwaits : (c.listing.answer request given).desk.isWaiting request.operation = true
        · simp [Effects.path?, hwaits]
        · simp [Effects.path?, hwaits]
  | tokenAnswered serial given =>
    simp only [step]
    split
    · exact about_nothing _
    · constructor
      · simp
      · simp only [Option.mem_toList, Option.map_eq_some_iff]
        rintro n ⟨failure, -, rfl⟩
        exact topic?_ofFailure_purpose ..
      · simp
      · exact fun _ => rfl
      · simp [Effects.path?]
  | dumpAnswered serial given =>
    simp only [step]
    split
    · exact about_nothing _
    · exact about_received serial given
  | dumpStored serial result =>
    simp only [step]
    split
    · exact about_nothing _
    · exact about_downloaded serial result

/-- Nothing is seen of a part in an event that is about another one. -/
theorem sights_eq_nil {Sent Shown : Type} {topic other : Topic} {pick : Request → Option Sent}
    {display : Controller → Effects → Option Shown} {now : Controller × Effects}
    (habout : now.2.About other) (hother : other ≠ topic)
    (hpick : ∀ request, request.topic ≠ topic → pick request = none)
    (hdisplay : display now.1 now.2 = none) : sights topic pick display now = [] := by
  have hrequests : now.2.requests.filterMap pick = [] := by
    refine List.filterMap_eq_nil_iff.2 fun request hrequest => hpick request ?_
    rwa [habout.requests request hrequest]
  have hnotifications : (now.2.notifications.filter fun n => n.topic? = some topic) = [] := by
    refine List.filter_eq_nil_iff.2 fun n hn => ?_
    rw [habout.notifications n hn]
    simpa using hother
  simp [sights, hrequests, hnotifications, hdisplay]

theorem listing_other (hother : event.topic ≠ .listing) :
    (c.step event).1.listing = c.listing ∧ listingSights (c.step event) = [] := by
  have habout := about_step c event
  constructor
  · rw [step_listing]
    cases event <;> first | rfl | exact absurd rfl hother
  · refine sights_eq_nil habout hother (fun request hrequest => ?_) ?_
    · cases request <;> first | rfl | exact absurd rfl hrequest
    · rw [if_neg fun hpublished => hother (habout.listing hpublished)]

theorem token_other (hother : event.topic ≠ .token) :
    (c.step event).1.token = c.token ∧ tokenSights (c.step event) = [] := by
  have habout := about_step c event
  constructor
  · rw [step_token]
    cases event <;> first | rfl | exact absurd rfl hother
  · refine sights_eq_nil habout hother (fun request hrequest => ?_) ?_
    · cases request <;> first | rfl | exact absurd rfl hrequest
    · rw [if_neg fun hpublished => hother (habout.token hpublished)]

theorem dumps_other (hother : event.topic ≠ .dumps) : (c.step event).1.dumps = c.dumps ∧
    (c.step event).1.storing = c.storing ∧ dumpSights (c.step event) = [] := by
  have habout := about_step c event
  refine ⟨?_, ?_, ?_⟩
  · rw [step_dumps]
    cases event <;> first | rfl | exact absurd rfl hother
  · have hnone : (c.step event).2.arrivals = [] := by
      rcases c.arrivals_cases event with hnone | ⟨serial, artifact, request, rfl, -⟩
      · exact hnone
      · exact absurd rfl hother
    rw [step_storing, hnone, List.append_nil, List.filter_eq_self]
    intro arrival _
    cases event <;> first | rfl | exact absurd rfl hother
  · refine sights_eq_nil habout hother (fun request hrequest => ?_) ?_
    · cases request <;> first | rfl | exact absurd rfl hrequest
    · exact Option.not_isSome_iff_eq_none.1 fun hpath => hother (habout.path hpath)

/-- What an event about the listing brings about depends on the listing only. -/
theorem listing_kept (htopic : event.topic = .listing) (hsame : c.listing = d.listing) :
    (c.step event).1.listing = (d.step event).1.listing ∧
      listingSights (c.step event) = listingSights (d.step event) := by
  refine ⟨by rw [step_listing, step_listing, hsame], ?_⟩
  cases event with
  | setView | setFilter => simp only [step, hsame]; rfl
  | setPage offset limit =>
    simp only [step, checkLimit_eq, hsame]
    split <;> rfl
  | listAnswered tag given =>
    simp only [step, hsame]
    split <;> rfl
  | _ => cases htopic

/-- What an event about the instruction brings about depends on the instruction only. -/
theorem token_kept (htopic : event.topic = .token) (hsame : c.token = d.token) :
    (c.step event).1.token = (d.step event).1.token ∧
      tokenSights (c.step event) = tokenSights (d.step event) := by
  refine ⟨by rw [step_token, step_token, hsame], ?_⟩
  cases event with
  | showToken =>
    simp only [step, hsame]
    cases d.token.show? <;> rfl
  | regenerateToken =>
    simp only [step, hsame]
    cases d.token.regenerate? <;> rfl
  | closeToken =>
    simp only [step, hsame]
    split <;> rfl
  | tokenAnswered serial given =>
    simp only [step, hsame]
    split <;> rfl
  | _ => cases htopic

/-- What an event about the dumps brings about depends on the dumps and on what is on display. -/
theorem dumps_kept (htopic : event.topic = .dumps) (hlisting : c.listing = d.listing)
    (hsame : c.dumps = d.dumps) (hstoring : c.storing = d.storing) :
    (c.step event).1.dumps = (d.step event).1.dumps ∧
      (c.step event).1.storing = (d.step event).1.storing ∧
      dumpSights (c.step event) = dumpSights (d.step event) := by
  cases event with
  | downloadDump machine =>
    simp only [step, hlisting, hsame]
    split
    · exact ⟨rfl, hstoring, rfl⟩
    · exact ⟨hsame, hstoring, rfl⟩
  | dumpAnswered serial given =>
    simp only [step, hsame, hstoring]
    split
    · exact ⟨hsame, hstoring, rfl⟩
    · cases given <;> exact ⟨rfl, rfl, rfl⟩
  | dumpStored serial result =>
    simp only [step, arrival?, hsame, hstoring]
    split
    · exact ⟨hsame, hstoring, rfl⟩
    · exact ⟨rfl, rfl, rfl⟩
  | _ => cases htopic

/-! ### Leaving events out -/

section Filter

variable {Part α : Type} (part : Controller → Part) (look : Controller × Effects → List α)
  (keep : Event → Bool)

theorem seen_filter
    (hkept : ∀ c d event, keep event = true → part c = part d →
      part (c.step event).1 = part (d.step event).1 ∧ look (c.step event) = look (d.step event))
    (hother : ∀ c event, keep event = false →
      part (c.step event).1 = part c ∧ look (c.step event) = [])
    {c d : Controller} (hsame : part c = part d) (events : List Event) :
    part (c.run (events.filter keep)).1 = part (d.run events).1 ∧
      c.seen look (events.filter keep) = d.seen look events := by
  -- The two controllers agree on the part, and may drift apart in all else.
  induction events generalizing c d with
  | nil => exact ⟨hsame, rfl⟩
  | cons event events ih =>
    cases hkeep : keep event with
    | true =>
      rw [List.filter_cons_of_pos hkeep]
      obtain ⟨hpart, hlook⟩ := hkept c d event hkeep hsame
      obtain ⟨hlast, hlater⟩ := ih hpart
      exact ⟨hlast, congrArg₂ (· ++ ·) hlook hlater⟩
    | false =>
      rw [List.filter_cons_of_neg (by simp [hkeep])]
      obtain ⟨hpart, hlook⟩ := hother d event hkeep
      obtain ⟨hlast, hlater⟩ := ih (hsame.trans hpart.symm)
      refine ⟨hlast, hlater.trans ?_⟩
      rw [seen, hlook, List.nil_append]

end Filter

theorem listing_filter (c : Controller) (events : List Event) :
    (c.run (events.filter fun event => event.topic = .listing)).1.listing =
        (c.run events).1.listing ∧
      c.seen listingSights (events.filter fun event => event.topic = .listing) =
        c.seen listingSights events := by
  apply seen_filter listing listingSights _ ?_ ?_ rfl
  · intro c d event hkeep hsame
    exact listing_kept (of_decide_eq_true hkeep) hsame
  · intro c event hkeep
    exact listing_other (of_decide_eq_false hkeep)

theorem token_filter (c : Controller) (events : List Event) :
    (c.run (events.filter fun event => event.topic = .token)).1.token = (c.run events).1.token ∧
      c.seen tokenSights (events.filter fun event => event.topic = .token) =
        c.seen tokenSights events := by
  apply seen_filter token tokenSights _ ?_ ?_ rfl
  · intro c d event hkeep hsame
    exact token_kept (of_decide_eq_true hkeep) hsame
  · intro c event hkeep
    exact token_other (of_decide_eq_false hkeep)

theorem dumps_filter (c : Controller) (events : List Event) :
    (c.run (events.filter fun event => event.topic ≠ .token)).1.dumps = (c.run events).1.dumps ∧
      (c.run (events.filter fun event => event.topic ≠ .token)).1.storing =
        (c.run events).1.storing ∧
      c.seen dumpSights (events.filter fun event => event.topic ≠ .token) =
        c.seen dumpSights events := by
  have hall := seen_filter (fun c => (c.listing, c.dumps, c.storing)) dumpSights
    (fun event => event.topic ≠ .token) ?_ ?_ (Eq.refl (c.listing, c.dumps, c.storing)) events
  · exact ⟨congrArg (fun parts => parts.2.1) hall.1, congrArg (fun parts => parts.2.2) hall.1,
      hall.2⟩
  · intro c d event _ hsame
    simp only [Prod.mk.injEq] at hsame ⊢
    obtain ⟨hlisting, hdumps, hstoring⟩ := hsame
    have hlater : (c.step event).1.listing = (d.step event).1.listing := by
      rw [step_listing, step_listing, hlisting]
    by_cases htopic : event.topic = .dumps
    · obtain ⟨hnext, hkept, hseen⟩ := dumps_kept htopic hlisting hdumps hstoring
      exact ⟨⟨hlater, hnext, hkept⟩, hseen⟩
    · obtain ⟨hnext, hkept, hseen⟩ := dumps_other (c := c) htopic
      obtain ⟨hnext', hkept', hseen'⟩ := dumps_other (c := d) htopic
      rw [hnext, hnext', hkept, hkept', hseen, hseen']
      exact ⟨⟨hlater, hdumps, hstoring⟩, rfl⟩
  · intro c event hkeep
    have htopic : event.topic = .token := by simpa using hkeep
    have hlisting : event.topic ≠ .listing := by simp [htopic]
    have hdumps : event.topic ≠ .dumps := by simp [htopic]
    obtain ⟨hnext, hkept, hseen⟩ := dumps_other (c := c) hdumps
    simp only [Prod.mk.injEq]
    exact ⟨⟨(listing_other hlisting).1, hnext, hkept⟩, hseen⟩

/-! ### Downloads -/

/-- The machine whose dump is asked for in an event, when machines are on display. -/
def Event.wanted (displayed : List Machine) : Event → List Int
  | .downloadDump machine => if ∃ m ∈ displayed, m.id = machine then [machine] else []
  | _ => []

/-- What a download with a number returns when an event is the end of storing its dump. -/
def Event.storedAs? (serial : Nat) : Event → Option (Option String)
  | .dumpStored other result => if other = serial then some result.toOption else none
  | _ => none

/-- What a download returns in events that follow its request: nothing if no dump comes, and if one
comes, the path at which it is stored then, if it is. -/
def downloadReturns? (serial : Nat) : List Event → Option (Option String)
  | [] => none
  | .dumpAnswered other given :: events =>
    if other = serial then
      match given with
      | .ok _ => events.findSome? (Event.storedAs? serial)
      | .error _ => some none
    else downloadReturns? serial events
  | _ :: events => downloadReturns? serial events

theorem requests_wanted (c : Controller) (event : Event) :
    ((c.step event).2.requests.filterMap Request.dump?).map Dump.Request.machine =
      event.wanted c.machines.items := by
  rw [step_dump_requests]
  cases event with
  | downloadDump machine =>
    simp only [Event.wanted, Event.dump?, ← FleetConsole.Listing.isSome_find?_iff]
    split <;> rfl
  | dumpAnswered serial given =>
    simp only [Event.dump?, Option.elim_some, Exchange.sent_heard_answer]
    rfl
  | _ => rfl

theorem downloadDump_listed {machine : Int} (hlisted : ∃ m ∈ c.machines.items, m.id = machine) :
    c.step (.downloadDump machine) =
      ({ c with dumps := (c.dumps.request machine).1, gauge := c.gauge.start },
        { requests := [.dump ⟨c.dumps.issued + 1, machine⟩], published := { loading := true }
          progress := .waiting (.dump (c.dumps.issued + 1)) }) := by
  rw [← FleetConsole.Listing.isSome_find?_iff, machines] at hlisted
  simp only [step, hlisted, if_true]
  rfl

theorem open?_request (hinOrder : InOrder c) (machine : Int) :
    (c.dumps.request machine).1.open? (c.dumps.issued + 1) =
      some ⟨c.dumps.issued + 1, machine⟩ := by
  have hnew : c.dumps.pending.find? (fun request => request.serial = c.dumps.issued + 1) =
      none := by
    refine List.find?_eq_none.2 fun request hmem => ?_
    have hbound : request.serial ≤ c.dumps.issued := hinOrder.dumps.le_issued request hmem
    rw [decide_eq_true_iff]
    omega
  simp [Dump.Desk.request, Dump.Desk.open?, List.find?_append, hnew]

section Waiting

variable {serial : Nat} {request : Dump.Request}

theorem open?_step (hopen : c.dumps.open? serial = some request)
    (hwait : ∀ given, event ≠ .dumpAnswered serial given) :
    (c.step event).1.dumps.open? serial = some request := by
  rw [step_dumps]
  cases hevent : event.dump? c.machines with
  | none => exact hopen
  | some part =>
    refine Dump.exchange.open?_after hopen ?_
    cases event with
    | downloadDump machine =>
      rw [Event.dump?, Option.ite_none_right_eq_some] at hevent
      rw [← Option.some.inj hevent.2]
      rfl
    | dumpAnswered other given =>
      rw [← Option.some.inj hevent, Exchange.Event.settles, decide_eq_false_iff_not]
      rintro rfl
      exact hwait given rfl
    | _ => cases hevent

/-- A download returns with the answer to its request or the end of storing its dump only. -/
theorem returned?_eq_none (hanswer : ∀ given, event ≠ .dumpAnswered serial given)
    (hstored : ∀ result, event ≠ .dumpStored serial result) :
    (c.step event).2.returned? serial = none := by
  cases event with
  | dumpAnswered other given =>
    have hother : other ≠ serial := by
      rintro rfl
      exact hanswer given rfl
    simp only [step]
    split
    · rfl
    · cases given <;> simp [received, downloaded, Effects.returned?, hother]
  | dumpStored other result =>
    have hother : other ≠ serial := by
      rintro rfl
      exact hstored result rfl
    simp only [step]
    split <;> simp [downloaded, Effects.returned?, hother]
  | setView | setFilter => rfl
  | setPage => simp only [step]; split <;> rfl
  | showToken => simp only [step]; cases c.token.show? <;> rfl
  | regenerateToken => simp only [step]; cases c.token.regenerate? <;> rfl
  | closeToken | downloadDump | tokenAnswered => simp only [step]; split <;> rfl
  | listAnswered tag given =>
    simp only [step]
    split
    · rfl
    · rename_i request hopen
      by_cases hwaits : (c.listing.answer request given).desk.isWaiting request.operation = true <;>
        simp [Effects.returned?, hwaits]

theorem arrival?_eq_none : c.arrival? serial = none ↔
    ∀ arrival ∈ c.storing, arrival.serial ≠ serial := by
  simp [arrival?]

/-- A dump is being stored until that ends, whatever else happens. -/
theorem isSome_arrival?_step (harrival : (c.arrival? serial).isSome = true)
    (hwait : event.storedAs? serial = none) :
    ((c.step event).1.arrival? serial).isSome = true := by
  rw [arrival?, List.find?_isSome] at harrival ⊢
  obtain ⟨arrival, hmem, hserial⟩ := harrival
  refine ⟨arrival, ?_, hserial⟩
  rw [step_storing]
  refine List.mem_append_left _ (List.mem_filter.2 ⟨hmem, ?_⟩)
  cases event with
  | dumpStored other result =>
    have hother : other ≠ serial := by simpa [Event.storedAs?] using hwait
    simpa [Event.stores, of_decide_eq_true hserial] using Ne.symm hother
  | _ => rfl

/-- While a dump is being stored, its download returns with what the sink says of it. -/
theorem returned?_storing (hclosed : c.dumps.open? serial = none)
    (hgiven : serial ≤ c.dumps.issued) (harrival : (c.arrival? serial).isSome = true)
    (events : List Event) : (c.run events).2.findSome? (Effects.returned? serial) =
      events.findSome? (Event.storedAs? serial) := by
  induction events generalizing c with
  | nil => rfl
  | cons event events ih =>
    simp only [run, List.findSome?_cons]
    cases hstored : event.storedAs? serial with
    | some path =>
      cases event with
      | dumpStored other result =>
        obtain ⟨rfl, hpath⟩ := Option.ite_none_right_eq_some.1 hstored
        obtain ⟨arrival, harrival⟩ := Option.isSome_iff_exists.1 harrival
        simp [step, harrival, downloaded, Effects.returned?, ← Option.some.inj hpath]
      | _ => cases hstored
    | none =>
      have hquiet : (c.step event).2.returned? serial = none := by
        by_cases hanswer : ∃ given, event = .dumpAnswered serial given
        · obtain ⟨given, rfl⟩ := hanswer
          simp only [step, hclosed]
          rfl
        · refine returned?_eq_none (fun given hevent => hanswer ⟨given, hevent⟩) ?_
          rintro result rfl
          simp [Event.storedAs?] at hstored
      rw [hquiet]
      exact ih (closed_step hclosed hgiven) (Nat.le_trans hgiven (c.issued_le_step event))
        (isSome_arrival?_step harrival hstored)

/-- A download returns what the answer to its request and then the sink say. -/
theorem returned?_run (hinOrder : InOrder c) (hopen : c.dumps.open? serial = some request)
    (events : List Event) : (c.run events).2.findSome? (Effects.returned? serial) =
      downloadReturns? serial events := by
  induction events generalizing c with
  | nil => rfl
  | cons event events ih =>
    have hnone : c.arrival? serial = none := by
      refine arrival?_eq_none.2 fun arrival hmem hserial => ?_
      have hclosed := hinOrder.closed arrival hmem
      rw [hserial, hopen] at hclosed
      cases hclosed
    simp only [run, List.findSome?_cons]
    by_cases hanswer : ∃ given, event = .dumpAnswered serial given
    · obtain ⟨given, rfl⟩ := hanswer
      have hnext := hinOrder.step (.dumpAnswered serial given)
      cases given with
      | error failure =>
        simp [step, hopen, received, downloaded, Effects.returned?, downloadReturns?,
          Except.toOption]
      | ok artifact =>
        have hmem : ⟨serial, artifact⟩ ∈
            (c.step (.dumpAnswered serial (.ok artifact))).1.storing := by
          simp [step, hopen, received]
        have harrival :
            ((c.step (.dumpAnswered serial (.ok artifact))).1.arrival? serial).isSome = true := by
          rw [arrival?, List.find?_isSome]
          exact ⟨_, hmem, decide_eq_true rfl⟩
        have hlater := returned?_storing (hnext.closed _ hmem) (hnext.given _ hmem) harrival events
        simp only [downloadReturns?, if_true, ← hlater]
        simp [step, hopen, received, Effects.returned?]
    · have hother : ∀ given, event ≠ .dumpAnswered serial given :=
        fun given hevent => hanswer ⟨given, hevent⟩
      have hquiet : (c.step event).2.returned? serial = none := by
        by_cases hstored : ∃ result, event = .dumpStored serial result
        · obtain ⟨result, rfl⟩ := hstored
          simp only [step, hnone]
          rfl
        · exact returned?_eq_none hother fun result hevent => hstored ⟨result, hevent⟩
      have hskip : downloadReturns? serial (event :: events) = downloadReturns? serial events := by
        cases event with
        | dumpAnswered number given =>
          have hne : number ≠ serial := by
            rintro rfl
            exact hother given rfl
          exact if_neg hne
        | _ => rfl
      rw [hquiet, hskip]
      exact ih (hinOrder.step event) (open?_step hopen hother)

end Waiting

/-- What downloads do, at any moment of a run. -/
structure DumpsFollow (c : Controller) : Prop where
  requests : ∀ event,
    ((c.step event).2.requests.filterMap Request.dump?).map Dump.Request.machine =
      event.wanted c.machines.items
  /-- An answer is not seen anywhere else. -/
  answered : ∀ serial given,
    let now := c.step (.dumpAnswered serial given)
    (now.1.listing = c.listing ∧ now.2.published.listing = false) ∧
      now.1.token = c.token ∧ now.2.published.token = false
  stored : ∀ serial result,
    let now := c.step (.dumpStored serial result)
    (now.1.listing = c.listing ∧ now.2.published.listing = false) ∧
      now.1.token = c.token ∧ now.2.published.token = false
  refused : ∀ machine, (∀ m ∈ c.machines.items, m.id ≠ machine) →
    (c.step (.downloadDump machine)).2.progress = .immediate
  /-- A download returns a path exactly if a dump comes and is stored. -/
  returned : ∀ machine, (∃ m ∈ c.machines.items, m.id = machine) → ∃ serial,
    (c.step (.downloadDump machine)).2.requests = [.dump ⟨serial, machine⟩] ∧
      (c.step (.downloadDump machine)).2.progress = .waiting (.dump serial) ∧
      ∀ later, ((c.step (.downloadDump machine)).1.run later).2.findSome?
        (Effects.returned? serial) = downloadReturns? serial later

/-- Neither the listing nor the instruction is seen in an event that is about the dumps. -/
theorem unseen_of_dumps (htopic : event.topic = .dumps) :
    ((c.step event).1.listing = c.listing ∧ (c.step event).2.published.listing = false) ∧
      (c.step event).1.token = c.token ∧ (c.step event).2.published.token = false := by
  have habout := about_step c event
  rw [htopic] at habout
  refine ⟨⟨(listing_other (by simp [htopic])).1, ?_⟩, (token_other (by simp [htopic])).1, ?_⟩
  · refine Bool.eq_false_iff.2 fun hpublished => ?_
    cases habout.listing hpublished
  · refine Bool.eq_false_iff.2 fun hpublished => ?_
    cases habout.token hpublished

theorem InOrder.dumpsFollow (hinOrder : InOrder c) : DumpsFollow c where
  requests := requests_wanted c
  answered _ _ := unseen_of_dumps rfl
  stored _ _ := unseen_of_dumps rfl
  refused machine hmissing := by rw [step_downloadDump_refused hmissing]; rfl
  returned machine hlisted := by
    refine ⟨c.dumps.issued + 1, ?_⟩
    have hnext := hinOrder.step (.downloadDump machine)
    rw [downloadDump_listed hlisted] at hnext ⊢
    exact ⟨rfl, rfl, fun later => returned?_run hnext (open?_request hinOrder machine) later⟩

/-- Of each part is seen what would be seen without the events that are about the others. -/
theorem parts_independent {setup : Setup} {start : Controller} (hstart : initial setup = .ok start)
    (events : List Event) :
    ((start.run (events.filter fun event => event.topic = .listing)).1.listing =
        (start.run events).1.listing ∧
      start.seen listingSights (events.filter fun event => event.topic = .listing) =
        start.seen listingSights events) ∧
    ((start.run (events.filter fun event => event.topic = .token)).1.token =
        (start.run events).1.token ∧
      start.seen tokenSights (events.filter fun event => event.topic = .token) =
        start.seen tokenSights events) ∧
    ((start.run (events.filter fun event => event.topic ≠ .token)).1.dumps =
        (start.run events).1.dumps ∧
      (start.run (events.filter fun event => event.topic ≠ .token)).1.storing =
        (start.run events).1.storing ∧
      start.seen dumpSights (events.filter fun event => event.topic ≠ .token) =
        start.seen dumpSights events) ∧
    DumpsFollow (start.run events).1 :=
  ⟨listing_filter start events, token_filter start events, dumps_filter start events,
    (inOrder_run hstart events).dumpsFollow⟩

/-- A machine on display while the instruction is being fetched. -/
def leadUp : List Event :=
  [.setView .authorized, .showToken, .listAnswered 2 (.ok ⟨[{ id := 7 }], 1⟩)]

/-- What happens after the download of that machine: it leaves the display before its dump comes. -/
def aftermath : List Event :=
  [.tokenAnswered 1 (.ok "secret"), .setFilter none, .listAnswered 3 (.ok {}),
    .dumpAnswered 1 (.ok ⟨7, "a.txt", [0]⟩), .dumpStored 1 (.ok "dumps/a.txt")]

/-- The download returns although its machine is gone. -/
theorem download_of_replaced_machine :
    initial {} = .ok fresh ∧
      (fresh.run ((leadUp ++ aftermath).filter fun event => event.topic = .listing)).1.machines =
        {} ∧
      (fresh.run ((leadUp ++ aftermath).filter fun event => event.topic = .token)).1.instruction =
        ⟨.shown, true, "secret"⟩ ∧
      (((fresh.run leadUp).1.step (.downloadDump 7)).1.run aftermath).2.findSome?
        (Effects.returned? 1) = some (some "dumps/a.txt") := by
  obtain ⟨hlisting, htoken, -, -⟩ := parts_independent initial_fresh (leadUp ++ aftermath)
  obtain ⟨-, -, -, hfollow⟩ := parts_independent initial_fresh leadUp
  obtain ⟨serial, hrequests, -, hlater⟩ := hfollow.returned 7 ⟨{ id := 7 }, .head _, rfl⟩
  have hserial : [Request.dump ⟨1, 7⟩] = [.dump ⟨serial, 7⟩] := hrequests
  cases hserial
  refine ⟨initial_fresh, ?_, ?_, (hlater aftermath).trans rfl⟩
  · rw [machines, hlisting.1]
    rfl
  · rw [Controller.instruction, htoken.1]
    rfl

end Controller

end FleetConsole
