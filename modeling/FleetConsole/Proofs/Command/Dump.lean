import FleetConsole.Proofs.Command.Turn
import FleetConsole.Proofs.Controller.Report
import FleetConsole.Proofs.Dump.Delivery
import FleetConsole.Proofs.Server.Request

/-!
# Storing a dump is all or nothing

The command that stores a dump asks for it only if the page it turned to shows the machine, and then
once. If the dump comes in full and can be stored, the command says where; in every other case it
fails, and the files are as they were. Which of the cases it is depends only on the answers of the
server and on what befalls the files: `Shows` speaks of the answers to the queries, `Stored` of what
comes of the request for the dump in the end, and neither of the controller between them. Where the
client is sent on, what comes in the end is not the reply to the first request
(`dump_stored_after_redirect`).
-/

namespace FleetConsole

/-- What becomes of the dump of a machine that is asked for and then put into a directory: the path
at which it is stored, and the world afterwards. -/
def World.fetch (w : World) (server : Server) (dir : String) (id : Int) :
    Except Failure String × World :=
  let later := w.after (server.requests [.dump id])
  match w.answer server (.dump id) with
  | .error failure => (.error failure, later)
  | .ok artifact => (store dir artifact).run later

namespace Command

/-! ### The download -/

section Download

variable {id : Int} {c : Controller}

theorem run_settle_dump (settings : Settings) (id : Int) (serial : Nat) (w : World) :
    ((World.services settings).settle (.dump ⟨serial, id⟩)).run w =
      (.dumpAnswered serial (w.answer settings.server (.dump id)),
        w.after (settings.server.requests [.dump id])) :=
  World.run_ask_map settings.server (.dump id) w (Controller.Event.dumpAnswered serial)

theorem run_store_one (settings : Settings) (dir : String) (arrival : Dump.Arrival) (w : World) :
    ([arrival].mapM ((World.services settings).store dir)).run w =
      ([.dumpStored arrival.serial ((World.store dir arrival.artifact).run w).1],
        ((World.store dir arrival.artifact).run w).2) := rfl

/-- A controller whose first dump is under way. -/
def downloading (c : Controller) (id : Int) : Controller :=
  { c with dumps := ⟨1, [⟨1, id⟩]⟩, gauge := c.gauge.start }

/-- A controller whose first dump is being stored. -/
def storing (c : Controller) (artifact : Dump.Artifact) : Controller :=
  { c with dumps := ⟨1, []⟩, storing := [⟨1, artifact⟩], gauge := c.gauge.start }

theorem step_downloadDump (hdumps : c.dumps = {}) (hshown : (c.machines.find? id).isSome = true) :
    c.step (.downloadDump id) = (downloading c id,
      { requests := [.dump ⟨1, id⟩], published := { loading := true }
        progress := .waiting (.dump 1) }) := by
  rw [Controller.machines] at hshown
  rw [Controller.step, if_pos hshown, hdumps]
  rfl

theorem step_dumpAnswered_ok (hstoring : c.storing = []) (artifact : Dump.Artifact) :
    (downloading c id).step (.dumpAnswered 1 (.ok artifact)) =
      (storing c artifact, { arrivals := [⟨1, artifact⟩] }) := by
  simp only [Controller.step, Controller.received, downloading, hstoring]
  rfl

/-- What is left to report of a download, and where the dump is, show in its last effects. -/
theorem run_download (settings : Settings) (dir : String) (w : World) (hdumps : c.dumps = {})
    (hstoring : c.storing = []) (hshown : (c.machines.find? id).isSome = true) :
    ∃ last effects, (performAll (World.services settings) dir c [.downloadDump id]).run w =
        ((last, effects), (w.fetch settings.server dir id).2) ∧
      errors effects = Dump.report (w.fetch settings.server dir id).1 ∧
      storedPath? effects = (w.fetch settings.server dir id).1.toOption := by
  have hstep := step_downloadDump hdumps hshown
  have hsettled := run_settle_one (run_settle_dump settings id 1 w)
  obtain ⟨arrived, harrived, hperformed⟩ :=
    run_perform dir c (.downloadDump id) (by rw [hstep]; exact hsettled)
  have harrived : arrived = [.dumpAnswered 1 (w.answer settings.server (.dump id))] := by
    rcases harrived with harrived | harrived <;> exact harrived
  rw [harrived, hstep] at hperformed
  rw [World.fetch]
  cases hanswer : w.answer settings.server (.dump id) with
  | error failure =>
    rw [hanswer] at hperformed
    exact ⟨_, _, run_performAll_one (hperformed _ _ [] _ rfl rfl), rfl, rfl⟩
  | ok artifact =>
    rw [hanswer] at hperformed
    have hrun : (downloading c id).run [.dumpAnswered 1 (.ok artifact)] =
        (storing c artifact, [{ arrivals := [⟨1, artifact⟩] }]) := by
      rw [Controller.run, step_dumpAnswered_ok hstoring]
      rfl
    refine ⟨_, _, run_performAll_one (hperformed _ _ _ _ hrun
      (run_store_one settings dir ⟨1, artifact⟩ _)), ?_⟩
    cases ((World.store dir artifact).run (w.after (settings.server.requests [.dump id]))).1 <;>
      exact ⟨rfl, rfl⟩

theorem run_download_unknown (settings : Settings) (dir : String) (w : World)
    (hunknown : ∀ machine ∈ c.machines.items, machine.id ≠ id) :
    (performAll (World.services settings) dir c [.downloadDump id]).run w =
      ((c, [{ notifications := Dump.report (.error (.unknownMachine id))
              progress := .immediate }]), w) := by
  have hstep : c.step (.downloadDump id) =
      c.immediate (Dump.report (.error (.unknownMachine id))) :=
    c.step_downloadDump_refused hunknown
  have hsettled : ((c.step (.downloadDump id)).2.requests.mapM
      (World.services settings).settle).run w = ([], w) := by
    rw [hstep]
    rfl
  obtain ⟨arrived, harrived, hperformed⟩ :=
    run_perform_answers dir c (.downloadDump id) hsettled (by simp)
  have harrived : arrived = [] := by
    rcases harrived with harrived | harrived <;> exact harrived
  rw [harrived, hstep] at hperformed
  exact run_performAll_one hperformed

end Download

/-! ### The command -/

/-- Whether the answers to the queries of a place bring a machine to its page: all of them are good,
and the machine is on the page that came last. -/
def Shows (id : Int) (pages : List (Except Failure Page)) : Prop :=
  (∀ answer ∈ pages, ∃ page, answer = .ok page) ∧
    ∃ page : Page, pages.getLast? = some (.ok page) ∧ ∃ machine ∈ page.items, machine.id = id

theorem shows_iff {id : Int} {pages : List (Except Failure Page)} (hlength : 2 ≤ pages.length)
    (hpages : ∀ answer ∈ pages, ∃ page, answer = .ok page) :
    Shows id pages ↔ ((Listing.ofAnswers pages).find? id).isSome = true := by
  obtain ⟨count, first, later, rfl⟩ : ∃ count first later, pages = count :: first :: later :=
    match pages, hlength with
    | count :: first :: later, _ => ⟨count, first, later, rfl⟩
  obtain ⟨count, rfl⟩ := hpages count List.mem_cons_self
  obtain ⟨last, hlast⟩ := hpages _ (List.mem_cons_of_mem _
    (List.getLast_mem (List.cons_ne_nil first later)))
  have hlast : (first :: later).getLast? = some (.ok last) := by
    rw [List.getLast?_eq_some_getLast (List.cons_ne_nil first later), hlast]
  rw [Listing.isSome_find?_iff, Listing.ofAnswers_of_last hlast, Shows, List.getLast?_cons_cons,
    hlast]
  constructor
  · rintro ⟨-, page, hpage, hmachine⟩
    cases hpage
    exact hmachine
  · exact fun hmachine => ⟨hpages, last, rfl, hmachine⟩

section Run

variable {settings : Settings} {place : Place} (id : Int) (w : World) (out : Option String)

/-- The result of the command, by what became of the dump. -/
def dumpResult : Except Failure String → Except Problem String
  | .ok path => .ok ("dump saved to " ++ path ++ "\n")
  | .error failure => .error (.reported (Dump.report (.error failure)))

theorem run_dump (hlimit : Query.checkLimit (place.pageSize settings) = .ok ()) :
    let queries := place.queries (place.pageSize settings)
    let between := w.after (settings.server.requests (queries.map .list))
    let fetched := between.fetch settings.server (out.getD settings.dumpDir) id
    (Shows id (w.pages settings.server queries) →
      (dump (World.services settings) settings id place out).run.run w =
        (dumpResult fetched.1, fetched.2)) ∧
    (¬Shows id (w.pages settings.server queries) → ∃ notifications,
      (dump (World.services settings) settings id place out).run.run w =
        (.error (.reported notifications), between)) := by
  intro queries between fetched
  obtain ⟨turned, hturned, hwhere⟩ :=
    run_turnTo place settings (out.getD settings.dumpDir) w hlimit
  simp only [dump]
  -- The command ends at a bad answer, at a page without the machine, or after the dump.
  cases hwhere with
  | stopped hfailed hreported =>
    exact ⟨fun hshows => absurd (reports_eq_nil.2 hshows.1) hfailed,
      fun _ => ⟨_, run_bind_error hturned⟩⟩
  | @arrived c hpages hmachines hview hdumps hstoring =>
    rw [run_bind_ok hturned]
    have hlength : 2 ≤ (w.pages settings.server queries).length := by
      rw [World.length_pages]
      exact place.two_le_length_queries _
    rw [shows_iff hlength hpages, ← hmachines]
    constructor
    · intro hshown
      obtain ⟨last, effects, hperformed, herrors, hpath⟩ := run_download settings
        (out.getD settings.dumpDir) between hdumps hstoring hshown
      have hcarried := run_carryOut hperformed
      rw [checked, herrors] at hcarried
      cases hfetched : fetched.1 with
      | error failure =>
        rw [hfetched] at hcarried
        exact run_bind_error hcarried
      | ok path =>
        rw [hfetched] at hcarried hpath
        rw [run_bind_ok hcarried]
        simp only [hpath]
        rfl
    · intro hunknown
      rw [Listing.isSome_find?_iff] at hunknown
      have hcarried := run_carryOut (run_download_unknown settings (out.getD settings.dumpDir)
        between fun machine hmachine hsame => hunknown ⟨machine, hmachine, hsame⟩)
      exact ⟨_, run_bind_error hcarried⟩

theorem run_dump_refused
    (hlimit : Query.checkLimit (place.pageSize settings) = .error Query.limitFailure) :
    (dump (World.services settings) settings id place out).run.run w =
      (.error (.refused Query.limitFailure), w) := by
  rw [dump]
  exact run_bind_error (run_turnTo_refused place settings (out.getD settings.dumpDir) w hlimit)

end Run

/-! ### What is stored -/

/-- Whether what comes of the request for the dump of a machine is a complete success, and what it
brings is stored at a path. -/
def Stored (w : World) (server : Server) (dir : String) (id : Int) (path : String)
    (body : Storage.Bytes) : Prop :=
  ∃ request response, server.request (.dump id) = .ok request ∧
    w.Brings request response ∧ Http.isSuccess response.status = true ∧
    response.complete = true ∧ response.body = body ∧
    (Dump.deliver w.interference dir ⟨id, Server.offeredName id response, body⟩ w.files).1 =
      .ok path

section Fetch

variable {w : World} {server : Server} {dir : String} {id : Int}

theorem answer_dump_eq_ok {artifact : Dump.Artifact} :
    w.answer server (.dump id) = .ok artifact ↔ ∃ request response,
      server.request (.dump id) = .ok request ∧ w.Brings request response ∧
      Http.isSuccess response.status = true ∧ response.complete = true ∧
      artifact = ⟨id, Server.offeredName id response, response.body⟩ := by
  rw [World.answer_eq_ok]
  simp only [Server.readBody, Except.ok.injEq, eq_comm]

theorem run_store (dir : String) (artifact : Dump.Artifact) (w : World)
    (requests : List Http.Request) :
    ((World.store dir artifact).run (w.after requests)).1 =
        (Dump.deliver w.interference dir artifact w.files).1 ∧
      ((World.store dir artifact).run (w.after requests)).2.files =
        (Dump.deliver w.interference dir artifact w.files).2 := by
  obtain ⟨trails, hafter, -⟩ := w.after_eq requests
  rw [hafter]
  exact ⟨rfl, rfl⟩

theorem trails_fetch (w : World) (server : Server) (dir : String) (id : Int) :
    (w.fetch server dir id).2.trails = (w.after (server.requests [.dump id])).trails := by
  rw [World.fetch]
  cases w.answer server (.dump id) <;> rfl

/-- Requests, and then the one for a dump. -/
theorem asks_fetch (w : World) (requests : List Http.Request) (server : Server)
    (dir : String) (id : Int) : w.Asks (requests ++ server.requests [.dump id])
      ((w.after requests).fetch server dir id).2 := by
  rw [World.Asks, trails_fetch, World.after_append]
  exact w.asks_after _

theorem fetch_of_stored {path : String} {body : Storage.Bytes}
    (hstored : Stored w server dir id path body) : (w.fetch server dir id).1 = .ok path ∧
      Dump.Adds path body w.files (w.fetch server dir id).2.files := by
  obtain ⟨request, response, hrequest, hresult, hsuccess, hcomplete, rfl, hdelivered⟩ := hstored
  have hanswer :=
    answer_dump_eq_ok.2 ⟨request, response, hrequest, hresult, hsuccess, hcomplete, rfl⟩
  have hcases := Dump.delivered_deliver w.interference dir
    ⟨id, Server.offeredName id response, response.body⟩ w.files
  rw [hdelivered] at hcases
  obtain ⟨hpath, hfiles⟩ := run_store dir ⟨id, Server.offeredName id response, response.body⟩ w
    (server.requests [.dump id])
  rw [World.fetch]
  simp only [hanswer]
  rw [hpath, hfiles]
  exact ⟨hdelivered, hcases.adds⟩

theorem fetch_of_not_stored (hnot : ¬∃ path body, Stored w server dir id path body) :
    ∃ failure, (w.fetch server dir id).1 = .error failure ∧
      (w.fetch server dir id).2.files.files = w.files.files := by
  rw [World.fetch]
  cases hanswer : w.answer server (.dump id) with
  | error failure => exact ⟨failure, rfl, congrArg _ (w.files_after _)⟩
  | ok artifact =>
    obtain ⟨request, response, hrequest, hresult, hsuccess, hcomplete, rfl⟩ :=
      answer_dump_eq_ok.1 hanswer
    have hcases := Dump.delivered_deliver w.interference dir
      ⟨id, Server.offeredName id response, response.body⟩ w.files
    obtain ⟨hpath, hfiles⟩ := run_store dir ⟨id, Server.offeredName id response, response.body⟩ w
      (server.requests [.dump id])
    simp only [hpath, hfiles]
    cases hdelivered : (Dump.deliver w.interference dir
        ⟨id, Server.offeredName id response, response.body⟩ w.files).1 with
    | ok path =>
      exact absurd ⟨path, response.body, request, response, hrequest, hresult, hsuccess, hcomplete,
        rfl, hdelivered⟩ hnot
    | error failure =>
      rw [hdelivered] at hcases
      exact ⟨failure, rfl, hcases.files⟩

end Fetch

/-! ### All or nothing -/

/-- What the command does: the answers to its queries, which are sent in any order, decide whether
it asks for the dump, and then it stores the dump as one file and says where, or it stores nothing
and fails. -/
structure AllOrNothing (w : World) (server : Server) (queries : List Query) (dir : String)
    (id : Int) (result : Except Problem String) (later : World) : Prop where
  asked : Shows id (w.pages server queries) → ∃ requests request,
    requests.Perm (server.requests (queries.map .list)) ∧ server.IsDumpRequest id request ∧
      w.Asks (requests ++ [request]) later
  not_asked : ¬Shows id (w.pages server queries) → ∃ requests,
    requests.Perm (server.requests (queries.map .list)) ∧ w.Asks requests later
  /-- None of the other requests is one for a dump. -/
  apart : ∀ request ∈ server.requests (queries.map .list),
    ∀ machine, Server.IsMachineId machine → ¬server.IsDumpRequest machine request
  stored : ∀ path body, Shows id (w.pages server queries) →
    Stored (w.after (server.requests (queries.map .list))) server dir id path body →
      result = .ok ("dump saved to " ++ path ++ "\n") ∧ Dump.Adds path body w.files later.files
  not_stored : ¬(Shows id (w.pages server queries) ∧ ∃ path body,
    Stored (w.after (server.requests (queries.map .list))) server dir id path body) →
      (∃ problem, result = .error problem) ∧ later.files.files = w.files.files

theorem exists_listing {w : World} {server : Server} {queries : List Query} (hsome : queries ≠ [])
    (hpages : ∀ answer ∈ w.pages server queries, ∃ page, answer = .ok page) :
    ∃ query ∈ queries, ∃ request, server.request (.list query) = .ok request := by
  cases queries with
  | nil => exact absurd rfl hsome
  | cons query queries =>
    obtain ⟨page, hpage⟩ := hpages _ List.mem_cons_self
    rw [World.answer] at hpage
    cases hrequest : server.request (.list query) with
    | error trouble =>
      rw [hrequest] at hpage
      cases hpage
    | ok request => exact ⟨query, List.mem_cons_self, request, hrequest⟩

theorem allOrNothing_dump {settings : Settings} {id : Int} {place : Place}
    (hlimit : Query.checkLimit (place.pageSize settings) = .ok ())
    (hid : Server.IsMachineId id) (out : Option String) (w : World) :
    AllOrNothing w settings.server (place.queries (place.pageSize settings))
      (out.getD settings.dumpDir) id
      ((dump (World.services settings) settings id place out).run.run w).1
      ((dump (World.services settings) settings id place out).run.run w).2 := by
  obtain ⟨hshown, hunshown⟩ := run_dump id w out hlimit
  refine ⟨fun hshows => ?_, fun hshows => ?_, ?_, fun path body hshows hstored => ?_,
    fun hnot => ?_⟩
  · obtain ⟨query, hquery, listing, hlisting⟩ := exists_listing (place.queries_ne_nil _) hshows.1
    obtain ⟨request, hrequest, -⟩ :=
      Server.dump_of_listing hlisting (Place.isSome_authorized hquery) hid
    refine ⟨_, request, .refl _, Server.isDumpRequest hrequest, ?_⟩
    have hasks := asks_fetch w
      (settings.server.requests ((place.queries (place.pageSize settings)).map .list))
      settings.server (out.getD settings.dumpDir) id
    rw [Server.requests_of_eq_ok hrequest] at hasks
    rwa [hshown hshows]
  · obtain ⟨notifications, hrun⟩ := hunshown hshows
    rw [hrun]
    exact ⟨_, .refl _, w.asks_after _⟩
  · intro request hrequest machine hmachine hdump
    obtain ⟨call, hcall, hlisting⟩ := Server.mem_requests.1 hrequest
    obtain ⟨query, hquery, rfl⟩ := List.mem_map.1 hcall
    exact Server.dump_ne_listing hdump.built hlisting (Place.isSome_authorized hquery) hmachine rfl
  · obtain ⟨hpath, hadds⟩ := fetch_of_stored hstored
    rw [w.files_after] at hadds
    rw [hshown hshows, hpath]
    exact ⟨rfl, hadds⟩
  · by_cases hshows : Shows id (w.pages settings.server (place.queries (place.pageSize settings)))
    · obtain ⟨failure, hfailure, hfiles⟩ := fetch_of_not_stored fun h => hnot ⟨hshows, h⟩
      rw [w.files_after] at hfiles
      rw [hshown hshows, hfailure]
      exact ⟨⟨_, rfl⟩, hfiles⟩
    · obtain ⟨notifications, hrun⟩ := hunshown hshows
      rw [hrun]
      exact ⟨⟨_, rfl⟩, congrArg _ (w.files_after _)⟩

/-- A command that stores a dump does nothing if its settings or its limit are not valid, and is all
or nothing otherwise. -/
theorem dump_all_or_nothing (w : World) {invocation : Invocation} {id : Int} {place : Place}
    {out : Option String} (hcommand : invocation.command = .dumpMachine id place out)
    (hid : Server.IsMachineId id) :
    (∀ problem, invocation.settings w.files w.environment = .error problem →
      w.run invocation = (.error (.settings problem), w)) ∧
    ∀ settings, invocation.settings w.files w.environment = .ok settings →
      if 1 ≤ place.pageSize settings ∧ place.pageSize settings ≤ 100 then
        AllOrNothing w settings.server (place.queries (place.pageSize settings))
          (out.getD settings.dumpDir) id (w.run invocation).1 (w.run invocation).2
      else w.run invocation = (.error (.refused Query.limitFailure), w) := by
  rw [World.run, run, hcommand]
  refine ⟨fun problem hsettings => ?_, fun settings hsettings => ?_⟩
  · rw [hsettings]
    rfl
  · have hlimit := Controller.checkLimit_eq (place.pageSize settings)
    simp only [Query.validLimit_iff] at hlimit
    simp only [hsettings, withSettings]
    split_ifs at hlimit ⊢ with hvalid
    · exact allOrNothing_dump hlimit hid out w
    · exact run_dump_refused id w out hlimit

/-- A server that has one machine, and the dump of it. -/
def oneMachine : World where
  reply before _ := some
    { status := 200
      body := if before.length < 2 then
          "\x7b\"items\":[\x7b\"id\":7\x7d],\"total\":1\x7d".toUTF8.toList
        else [1, 2, 3] }

def dumpOfSeven : Invocation := { command := .dumpMachine 7 {} none }

/-- With the default settings, the dump is stored in the working directory. -/
theorem dump_of_one_machine :
    AllOrNothing oneMachine ⟨"http://127.0.0.1:8080", "authorization", none⟩
      (Place.queries {} 10) "." 7 (oneMachine.run dumpOfSeven).1 (oneMachine.run dumpOfSeven).2 ∧
    (oneMachine.run dumpOfSeven).1 = .ok "dump saved to ./machine-7-dump.tar.gz\n" ∧
    (oneMachine.run dumpOfSeven).2.files.readPath? "machine-7-dump.tar.gz" = some [1, 2, 3] := by
  have hsettings : dumpOfSeven.settings oneMachine.files oneMachine.environment =
      .ok ⟨"http://127.0.0.1:8080", "authorization", none, 10, ".", 30⟩ := by decide +kernel
  have hdump := (dump_all_or_nothing oneMachine
    (show dumpOfSeven.command = .dumpMachine 7 {} none from rfl) (by decide)).2 _ hsettings
  rw [if_pos (by decide)] at hdump
  exact ⟨hdump, by decide +kernel⟩

/-- A server like that, which sends the client on to the same place before it gives the dump. -/
def movedDump : World where
  reply before _ := some <|
    if before.length < 2 then
      { status := 200
        body := "\x7b\"items\":[\x7b\"id\":7\x7d],\"total\":1\x7d".toUTF8.toList }
    else if before.length = 2 then
      { status := 307, fields := [("location", "/api/machines/7/dump".toUTF8.toList)] }
    else { status := 200, body := [1, 2, 3] }

/-- The server is asked for the dump twice. Its reply to the first of these requests is no success,
and yet the dump is stored. -/
theorem dump_stored_after_redirect :
    let (result, later) := movedDump.run dumpOfSeven
    later.received.map Http.Request.target =
      ["/api/machines?start=0&limit=1&authorized=false",
        "/api/machines?start=0&limit=10&authorized=true", "/api/machines/7/dump",
        "/api/machines/7/dump"] ∧
    (later.received[2]?.bind (later.reply (later.received.take 2))).map Http.Response.status =
      some 307 ∧
    result = .ok "dump saved to ./machine-7-dump.tar.gz\n" ∧
    later.files.readPath? "machine-7-dump.tar.gz" = some [1, 2, 3] := by
  decide +kernel

end Command

end FleetConsole
