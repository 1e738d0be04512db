import FleetConsole.Command.World
import FleetConsole.Proofs.Server.Answer
import Mathlib.Tactic.SplitIfs

/-!
# Exchanges in a world

In a world a call has an answer, which depends on the requests that were sent before, and leaves the
world as it was but for one more request and those to which redirects led from it. What comes of it
is the reply to the last of these (`result_eq_ok_iff`). The server says where redirects lead, but not
whether they only ask: where a client is sent on to from a request that only asks, it only asks
(`Leads.get`).
-/

namespace FleetConsole

namespace Http.Client

/-- Where a client is sent on to from a request that only asks, it only asks. -/
theorem method_of_next? {client : Client} {request next : Request} {response : Response}
    (hnext : client.next? request response = some next) (hget : request.method = .get) :
    next.method = .get := by
  simp only [next?, redirected?, hget, ite_self, Option.bind_eq_bind, Option.bind_eq_some_iff,
    Option.pure_def, Option.some.injEq] at hnext
  obtain ⟨method, hmethod, location, -, url, -, rfl⟩ := hnext
  split_ifs at hmethod
  all_goals
    cases hmethod
    rfl

end Http.Client

namespace Server

/-- The requests for calls, as far as there are requests for them. -/
def requests (server : Server) (calls : List Call) : List Http.Request :=
  calls.filterMap fun call => (server.request call).toOption

theorem requests_append (server : Server) (earlier later : List Call) :
    server.requests (earlier ++ later) = server.requests earlier ++ server.requests later :=
  List.filterMap_append

theorem requests_of_eq_ok {server : Server} {call : Call} {request : Http.Request}
    (hrequest : server.request call = .ok request) : server.requests [call] = [request] := by
  rw [requests, List.filterMap_cons, hrequest]
  rfl

theorem mem_requests {server : Server} {calls : List Call} {request : Http.Request} :
    request ∈ server.requests calls ↔ ∃ call ∈ calls, server.request call = .ok request := by
  rw [requests, List.mem_filterMap]
  simp only [toOption_eq_some]

end Server

namespace World

/-! ### Redirects -/

/-- A trail that begins after other requests is one of replies: each request in it but the first is
the one to which the reply to the request before it sent the client on. -/
structure Leads (w : World) (limit : Nat) (before : List Http.Request) (trail : Http.Trail) :
    Prop where
  next : ∀ front request next back, trail.requests = front ++ request :: next :: back →
    ∃ response, w.reply (before ++ front) request = some response ∧
      w.client.next? request response = some next
  length : trail.followed.length ≤ limit

variable {w : World} {limit : Nat} {before : List Http.Request} {trail : Http.Trail}
  {request : Http.Request}

theorem Leads.single : w.Leads limit before ⟨request, []⟩ where
  next front first next back hrequests := by
    have hlength := congrArg List.length hrequests
    rw [Http.Trail.requests, List.length_append, List.length_cons, List.length_cons] at hlength
    simp only [List.length_cons, List.length_nil] at hlength
    omega
  length := Nat.zero_le _

theorem Leads.cons {response : Http.Response} {next : Http.Request}
    (hreply : w.reply before request = some response)
    (hnext : w.client.next? request response = some next) (hfirst : trail.request = next)
    (hleads : w.Leads limit (before ++ [request]) trail) :
    w.Leads (limit + 1) before ⟨request, trail.requests⟩ where
  next front first second back hrequests := by
    cases front with
    | nil =>
      rw [Http.Trail.requests, Http.Trail.requests, hfirst, List.nil_append, List.cons.injEq,
        List.cons.injEq] at hrequests
      obtain ⟨rfl, rfl, -⟩ := hrequests
      rw [List.append_nil]
      exact ⟨response, hreply, hnext⟩
    | cons other front =>
      rw [Http.Trail.requests, List.cons_append, List.cons.injEq] at hrequests
      obtain ⟨rfl, hrest⟩ := hrequests
      rw [List.append_cons]
      exact hleads.next front first second back hrest
  length := Nat.succ_le_succ hleads.length

/-- A response is the reply to the last request of a trail that begins after other requests, and it
sends the client nowhere. -/
def EndsWith (w : World) (before : List Http.Request) (trail : Http.Trail)
    (response : Http.Response) : Prop :=
  ∃ front last, trail.requests = front ++ [last] ∧
    w.reply (before ++ front) last = some response ∧ w.client.next? last response = none

section Single

variable {given response : Http.Response}

theorem endsWith_single : w.EndsWith before ⟨request, []⟩ response ↔
    w.reply before request = some response ∧ w.client.next? request response = none := by
  constructor
  · rintro ⟨front, last, hrequests, hreply, hnext⟩
    cases front with
    | nil =>
      cases hrequests
      rw [List.append_nil] at hreply
      exact ⟨hreply, hnext⟩
    | cons first front => simp [Http.Trail.requests] at hrequests
  · rintro ⟨hreply, hnext⟩
    exact ⟨[], request, rfl, by rwa [List.append_nil], hnext⟩

theorem not_endsWith_of_none (hreply : w.reply before request = none) :
    ¬w.EndsWith before ⟨request, []⟩ response := by
  simp [endsWith_single, hreply]

theorem endsWith_of_final (hreply : w.reply before request = some given)
    (hnext : w.client.next? request given = none) :
    (Except.ok given : Except Server.Trouble Http.Response) = .ok response ↔
      w.EndsWith before ⟨request, []⟩ response := by
  rw [endsWith_single, hreply, Option.some.injEq, Except.ok.injEq]
  exact ⟨fun hsame => ⟨hsame, hsame ▸ hnext⟩, And.left⟩

theorem not_endsWith_of_next {next : Http.Request} (hreply : w.reply before request = some given)
    (hnext : w.client.next? request given = some next) :
    ¬w.EndsWith before ⟨request, []⟩ response := by
  rw [endsWith_single, hreply, Option.some.injEq]
  rintro ⟨rfl, hnone⟩
  rw [hnext] at hnone
  cases hnone

end Single

theorem endsWith_cons {response : Http.Response} :
    w.EndsWith before ⟨request, trail.requests⟩ response ↔
      w.EndsWith (before ++ [request]) trail response := by
  constructor
  · rintro ⟨front, last, hrequests, hreply, hnext⟩
    cases front with
    | nil => simp [Http.Trail.requests] at hrequests
    | cons first front =>
      rw [Http.Trail.requests, List.cons_append, List.cons.injEq] at hrequests
      obtain ⟨rfl, hrest⟩ := hrequests
      rw [List.append_cons] at hreply
      exact ⟨front, last, hrest, hreply, hnext⟩
  · rintro ⟨front, last, hrequests, hreply, hnext⟩
    refine ⟨request :: front, last, ?_, ?_, hnext⟩
    · rw [List.cons_append, ← hrequests]
      rfl
    · rwa [List.append_cons]

theorem run_bind {σ α β : Type} (x : StateM σ α) (f : α → StateM σ β) (s : σ) :
    (x >>= f).run s = (f (x.run s).1).run (x.run s).2 := rfl

theorem run_connection (w : World) (before : List Http.Request) (request : Http.Request) :
    (w.connection request).run before = (w.reply before request, before ++ [request]) := rfl

/-- How an exchange goes that may follow a number of redirects. -/
inductive Exchanged (w : World) :
    Nat → List Http.Request → Http.Request → Server.Outcome → Prop
  | unanswered {limit : Nat} {before : List Http.Request} {request : Http.Request}
      (hreply : w.reply before request = none) :
      Exchanged w limit before request ⟨⟨request, []⟩, .error (.notSent request.url)⟩
  | final {limit : Nat} {before : List Http.Request} {request : Http.Request}
      {response : Http.Response} (hreply : w.reply before request = some response)
      (hnext : w.client.next? request response = none) :
      Exchanged w limit before request ⟨⟨request, []⟩, .ok response⟩
  | abandoned {limit : Nat} {before : List Http.Request} {request next : Http.Request}
      {response : Http.Response} (hreply : w.reply before request = some response)
      (hnext : w.client.next? request response = some next) (trouble : Server.Trouble) :
      Exchanged w limit before request ⟨⟨request, []⟩, .error trouble⟩
  | followed {limit : Nat} {before : List Http.Request} {request next : Http.Request}
      {response : Http.Response} {outcome : Server.Outcome}
      (hreply : w.reply before request = some response)
      (hnext : w.client.next? request response = some next)
      (hothers : Exchanged w limit (before ++ [request]) next outcome) :
      Exchanged w (limit + 1) before request ⟨⟨request, outcome.trail.requests⟩, outcome.result⟩

theorem exchanged (w : World) (limit : Nat) (before : List Http.Request)
    (request : Http.Request) : w.Exchanged limit before request
      ((Server.exchange w.client w.connection limit request).run before).1 := by
  induction limit generalizing before request with
  | zero =>
    rw [Server.exchange, run_bind, run_connection]
    cases hreply : w.reply before request with
    | none => exact .unanswered hreply
    | some response =>
      simp only
      cases hnext : w.client.next? request response with
      | none => exact .final hreply hnext
      | some next => exact .abandoned hreply hnext _
  | succ limit ih =>
    rw [Server.exchange, run_bind, run_connection]
    cases hreply : w.reply before request with
    | none => exact .unanswered hreply
    | some response =>
      simp only
      cases hnext : w.client.next? request response with
      | none => exact .final hreply hnext
      | some next =>
        simp only
        split
        · exact .followed hreply hnext (ih (before ++ [request]) next)
        · exact .abandoned hreply hnext _

theorem Exchanged.leads {outcome : Server.Outcome}
    (hexchanged : w.Exchanged limit before request outcome) :
    outcome.trail.request = request ∧ w.Leads limit before outcome.trail := by
  induction hexchanged with
  | unanswered | final | abandoned => exact ⟨rfl, .single⟩
  | followed hreply hnext hothers ih => exact ⟨rfl, .cons hreply hnext ih.1 ih.2⟩

/-- What comes of an exchange is the response with which its trail ends. -/
theorem Exchanged.result_eq_ok_iff {outcome : Server.Outcome} {response : Http.Response}
    (hexchanged : w.Exchanged limit before request outcome) :
    outcome.result = .ok response ↔ w.EndsWith before outcome.trail response := by
  induction hexchanged with
  | unanswered hreply => exact error_eq_ok_iff_of_not (not_endsWith_of_none hreply)
  | final hreply hnext => exact endsWith_of_final hreply hnext
  | abandoned hreply hnext => exact error_eq_ok_iff_of_not (not_endsWith_of_next hreply hnext)
  | followed hreply hnext hothers ih => exact ih.trans endsWith_cons.symm

theorem Leads.get (hleads : w.Leads limit before trail) (hget : trail.request.method = .get) :
    ∀ request ∈ trail.requests, request.method = .get := by
  -- Every request but the first comes after one, so this goes from the first on.
  suffices hall : ∀ back front first, trail.requests = front ++ first :: back →
      first.method = .get → ∀ request ∈ first :: back, request.method = .get from
    hall trail.followed [] trail.request rfl hget
  intro back
  induction back with
  | nil =>
    intro front first _ hfirst request hrequest
    rwa [List.mem_singleton.1 hrequest]
  | cons next back ih =>
    intro front first hrequests hfirst request hrequest
    rcases List.mem_cons.1 hrequest with rfl | hrequest
    · exact hfirst
    · obtain ⟨response, -, hnext⟩ := hleads.next front first next back hrequests
      have hmethod := Http.Client.method_of_next? hnext hfirst
      refine ih (front ++ [first]) next ?_ hmethod request hrequest
      rw [hrequests, List.append_assoc]
      rfl

theorem exchanged_outcome (w : World) (request : Http.Request) :
    w.Exchanged Server.redirectLimit w.received request (w.outcome request) :=
  w.exchanged Server.redirectLimit w.received request

theorem request_outcome (w : World) (request : Http.Request) :
    (w.outcome request).trail.request = request :=
  (w.exchanged_outcome request).leads.1

theorem leads_outcome (w : World) (request : Http.Request) :
    w.Leads Server.redirectLimit w.received (w.outcome request).trail :=
  (w.exchanged_outcome request).leads.2

/-- What comes of a request of the console in the end is a response: the reply to the last request
to which redirects lead from it. -/
def Brings (w : World) (request : Http.Request) (response : Http.Response) : Prop :=
  w.EndsWith w.received (w.outcome request).trail response

theorem result_eq_ok_iff (w : World) (request : Http.Request) (response : Http.Response) :
    (w.outcome request).result = .ok response ↔ w.Brings request response :=
  (w.exchanged_outcome request).result_eq_ok_iff

/-! ### Requests one after the other -/

/-- A world after one more request. -/
def asking (w : World) (request : Http.Request) : World :=
  { w with trails := w.trails ++ [(w.outcome request).trail] }

/-- A world after requests. -/
def after (w : World) (requests : List Http.Request) : World := requests.foldl asking w

theorem after_append (w : World) (earlier later : List Http.Request) :
    (w.after earlier).after later = w.after (earlier ++ later) :=
  List.foldl_append.symm

/-- Trails of requests that the console sends in a world. -/
structure Sends (w : World) (requests : List Http.Request) (trails : List Http.Trail) : Prop where
  own : trails.map Http.Trail.request = requests
  leads : ∀ front trail back, trails = front ++ trail :: back →
    w.Leads Server.redirectLimit (w.received ++ front.flatMap Http.Trail.requests) trail

theorem Sends.cons {requests : List Http.Request} {trails : List Http.Trail}
    (hsends : (w.asking request).Sends requests trails) :
    w.Sends (request :: requests) ((w.outcome request).trail :: trails) where
  own := by rw [List.map_cons, hsends.own, request_outcome]
  leads front trail back htrails := by
    cases front with
    | nil =>
      rw [List.nil_append, List.cons.injEq] at htrails
      obtain ⟨rfl, -⟩ := htrails
      rw [List.flatMap_nil, List.append_nil]
      exact w.leads_outcome request
    | cons first front =>
      rw [List.cons_append, List.cons.injEq] at htrails
      obtain ⟨rfl, hrest⟩ := htrails
      have hleads := hsends.leads front trail back hrest
      rw [received, asking, List.flatMap_append, List.flatMap_singleton] at hleads
      rw [List.flatMap_cons, ← List.append_assoc]
      exact ⟨hleads.next, hleads.length⟩

theorem sends_nil (w : World) : w.Sends [] [] where
  own := rfl
  leads front trail back htrails := by simp at htrails

theorem sends_single (w : World) (request : Http.Request) :
    w.Sends [request] [(w.outcome request).trail] := .cons (sends_nil _)

/-- Requests change nothing in a world but the trails. -/
theorem after_eq (w : World) (requests : List Http.Request) :
    ∃ trails, w.after requests = { w with trails := w.trails ++ trails } ∧
      w.Sends requests trails := by
  induction requests generalizing w with
  | nil =>
    refine ⟨[], ?_, w.sends_nil⟩
    rw [List.append_nil]
    rfl
  | cons request requests ih =>
    obtain ⟨trails, hafter, hsends⟩ := ih (w.asking request)
    refine ⟨_, ?_, hsends.cons⟩
    rw [after, List.foldl_cons, ← after, hafter, asking, List.append_assoc]
    rfl

/-- From a world to a later one the console sends requests. -/
def Asks (w : World) (requests : List Http.Request) (later : World) : Prop :=
  ∃ trails, later.trails = w.trails ++ trails ∧ w.Sends requests trails

theorem asks_after (w : World) (requests : List Http.Request) :
    w.Asks requests (w.after requests) := by
  obtain ⟨trails, hafter, hsends⟩ := w.after_eq requests
  refine ⟨trails, ?_, hsends⟩
  rw [hafter]

theorem files_after (w : World) (requests : List Http.Request) :
    (w.after requests).files = w.files := by
  obtain ⟨trails, hafter, -⟩ := w.after_eq requests
  rw [hafter]

/-! ### Calls -/

/-- The answer to a call that follows the requests of a world. -/
def answer (w : World) (server : Server) (call : Server.Call) : Except Failure call.Answer :=
  match server.request call with
  | .error trouble => .error trouble.failure
  | .ok request => Server.readResult call (w.outcome request).result

/-- A call is answered if there is a request for it, and what comes of that is an answer. -/
theorem answer_eq_ok {server : Server} {call : Server.Call} {given : call.Answer} :
    w.answer server call = .ok given ↔ ∃ request response, server.request call = .ok request ∧
      w.Brings request response ∧ Http.isSuccess response.status = true ∧
      response.complete = true ∧ Server.readBody response call = .ok given := by
  rw [answer]
  cases server.request call with
  | error trouble => simp
  | ok request => simp [Server.readResult_eq_ok, result_eq_ok_iff]

/-- The answers to queries that follow each other. -/
def pages (w : World) (server : Server) : List Query → List (Except Failure Page)
  | [] => []
  | query :: queries =>
    w.answer server (.list query) :: (w.after (server.requests [.list query])).pages server queries

theorem length_pages (w : World) (server : Server) (queries : List Query) :
    (w.pages server queries).length = queries.length := by
  induction queries generalizing w with
  | nil => rfl
  | cons query queries ih => rw [pages, List.length_cons, List.length_cons, ih]

theorem pages_append (w : World) (server : Server) (earlier later : List Query) :
    w.pages server (earlier ++ later) = w.pages server earlier ++
      (w.after (server.requests (earlier.map .list))).pages server later := by
  induction earlier generalizing w with
  | nil => rfl
  | cons query earlier ih =>
    rw [List.cons_append, pages, pages, List.cons_append, ih, after_append,
      ← Server.requests_append]
    rfl

/-- A reply that sends the client nowhere is what comes of a request. -/
theorem result_of_final {response : Http.Response}
    (hreply : w.reply w.received request = some response)
    (hfinal : w.client.next? request response = none) :
    (w.outcome request).result = .ok response := by
  rw [outcome, Server.exchange, run_bind, run_connection, hreply]
  simp only [hfinal]
  rfl

/-- All answers are one page if every reply brings that page. -/
theorem pages_of_reply {server : Server} {response : Http.Response} {page : Page}
    (hreply : ∀ before request, w.reply before request = some response)
    (hfinal : ∀ request, w.client.next? request response = none)
    (hread : ∀ query, Server.readResponse (.list query) response = .ok page)
    {queries : List Query}
    (hbuilt : ∀ query ∈ queries, ∃ request, server.request (.list query) = .ok request) :
    ∀ answer ∈ w.pages server queries, answer = .ok page := by
  induction queries generalizing w with
  | nil => nofun
  | cons query queries ih =>
    rw [List.forall_mem_cons] at hbuilt
    obtain ⟨request, hrequest⟩ := hbuilt.1
    obtain ⟨trails, hafter, -⟩ := w.after_eq (server.requests [.list query])
    have hanswer : w.answer server (.list query) = .ok page := by
      rw [answer, hrequest]
      simp only [w.result_of_final (hreply _ request) (hfinal request)]
      exact hread query
    rw [pages, List.forall_mem_cons, hafter]
    exact ⟨hanswer, ih hreply hfinal hbuilt.2⟩

theorem run_ask (server : Server) (call : Server.Call) (w : World) :
    (Server.ask exchange server call).run w =
      (w.answer server call, w.after (server.requests [call])) := by
  rw [Server.ask, answer, Server.requests, List.filterMap_cons, List.filterMap_nil]
  cases server.request call with
  | error trouble => rfl
  | ok request => rfl

/-- A call, of whose answer something is made. -/
theorem run_ask_map {α : Type} (server : Server) (call : Server.Call) (w : World)
    (f : Except Failure call.Answer → α) :
    (f <$> Server.ask exchange server call : StateM World α).run w =
      (f (w.answer server call), w.after (server.requests [call])) :=
  congrArg (fun asked : Except Failure call.Answer × World => (f asked.1, asked.2))
    (run_ask server call w)

end World

end FleetConsole
