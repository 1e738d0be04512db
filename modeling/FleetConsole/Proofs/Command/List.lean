import FleetConsole.Proofs.Command.Turn
import FleetConsole.Proofs.Controller.Report
import FleetConsole.Proofs.Display.Machines
import FleetConsole.Proofs.Listing.Printed
import FleetConsole.Proofs.Server.Call

/-!
# Printing a page of machines

The command that prints machines turns to a page first. If every answer on the way is good, it
prints the page that came last with the number of unauthorized machines that came first; a bad
answer on the way makes it fail as a whole, also if the page itself arrived. What is printed depends
on the answers alone (`pageText`), and the requests do not even depend on those. A query without a
request, a client that is sent on, and a page too wide for a table are cases apart (`list_departs`).
-/

namespace FleetConsole

namespace Command

/-! ### What is printed -/

/-- A listing in a view as it is printed. -/
def pageText (listing : Listing) (view : View) (wide : Bool) : OutputMode → String
  | .json => Json.indentedText listing.toJson ++ "\n"
  | .yaml => Yaml.text listing.toJson
  | .table =>
    Display.listing listing (View.choices listing.unauthorizedTotal) view wide ++ "\n"

/-- Whether the machines of a page can be printed: where they are written as a table, no cell that
is padded has too many characters. -/
def Printable (machines : List Machine) (wide : Bool) (output : OutputMode) : Prop :=
  output = .table → ∀ m ∈ machines, ∀ cell ∈ (Display.machineCells wide m).dropLast,
    cell.length ≤ Display.maxWidth

theorem isPrintable_iff (c : Controller) (wide : Bool) (output : OutputMode) :
    isPrintable c wide output = true ↔ Printable c.machines.items wide output := by
  rw [isPrintable, Bool.or_eq_true, Display.canList_iff, Printable, decide_eq_true_iff, ne_eq,
    ← imp_iff_not_or]

theorem listingText_eq (c : Controller) (wide : Bool) (output : OutputMode) :
    listingText c wide output = pageText c.machines c.activeView wide output := by
  cases output <;> rfl

/-! ### Queries and their answers -/

theorem getLast?_zip {α β : Type} {as : List α} {bs : List β} {a : α} {b : β}
    (hlength : as.length = bs.length) (has : as.getLast? = some a) (hbs : bs.getLast? = some b) :
    (as.zip bs).getLast? = some (a, b) := by
  obtain ⟨as, rfl⟩ := List.getLast?_eq_some_iff.1 has
  obtain ⟨bs, rfl⟩ := List.getLast?_eq_some_iff.1 hbs
  have hfront : as.length = bs.length := by simpa using hlength
  rw [List.zip_append hfront, List.zip_cons_cons, List.zip_nil_left, List.getLast?_concat]

theorem getLast?_queries (place : Place) (limit : Nat) :
    (place.queries limit).getLast? = some (place.page limit place.offset) := by
  rw [Place.queries]
  split_ifs with hlater
  · rw [List.getLast?_concat]
  · have hfirst : place.offset = 0 := by omega
    rw [List.append_nil, hfirst]
    rfl

/-- A query for which there is no request has a bad answer. -/
theorem error_mem_pages {server : Server} {queries : List Query} {query : Query}
    {trouble : Server.Trouble} (hquery : query ∈ queries)
    (hrequest : server.request (.list query) = .error trouble) (w : World) :
    .error trouble.failure ∈ w.pages server queries := by
  induction queries generalizing w with
  | nil => cases hquery
  | cons first queries ih =>
    rw [World.pages]
    rcases List.mem_cons.1 hquery with rfl | hquery
    · rw [World.answer, hrequest]
      exact List.mem_cons_self
    · exact List.mem_cons_of_mem _ (ih hquery _)

/-- The first and the last of the queries of a place with their answers, if all are good. -/
theorem ends_of_good {w : World} {server : Server} {place : Place} {limit : Nat}
    (hgood : ∀ answer ∈ w.pages server (place.queries limit), ∃ page, answer = .ok page) :
    ∃ count page : Page,
      ((place.queries limit).zip (w.pages server (place.queries limit))).head? =
        some (Query.probe, .ok count) ∧
      ((place.queries limit).zip (w.pages server (place.queries limit))).getLast? =
        some (place.page limit place.offset, .ok page) ∧
      Listing.ofAnswers (w.pages server (place.queries limit)) =
        ⟨page.items, page.total, count.total⟩ := by
  have hlength := w.length_pages server (place.queries limit)
  have hlong := place.two_le_length_queries limit
  generalize w.pages server (place.queries limit) = pages at hgood hlength
  obtain ⟨count, first, later, rfl⟩ : ∃ count first later, pages = count :: first :: later :=
    match pages, (by omega : 2 ≤ pages.length) with
    | count :: first :: later, _ => ⟨count, first, later, rfl⟩
  obtain ⟨count, rfl⟩ := hgood count List.mem_cons_self
  have hsome := List.getLast?_eq_some_getLast (List.cons_ne_nil first later)
  obtain ⟨page, hpage⟩ := hgood _ (List.mem_cons_of_mem _
    (List.getLast_mem (List.cons_ne_nil first later)))
  rw [hpage] at hsome
  refine ⟨count, page, rfl, ?_, Listing.ofAnswers_of_last hsome⟩
  exact getLast?_zip hlength.symm (getLast?_queries place limit) hsome

/-! ### The command -/

/-- What the command does once its settings and its limit are valid: it sends the requests of its
place, and then prints the page of the place or reports every failure. -/
structure PrintsPage (w : World) (server : Server) (place : Place) (limit : Nat) (wide : Bool)
    (output : OutputMode) (result : Except Problem String) (later : World) : Prop where
  /-- The console sends nothing but the requests for the queries. -/
  sent : ∃ requests, requests.Perm (server.requests ((place.queries limit).map .list)) ∧
    w.Asks requests later
  files : later.files = w.files
  /-- If there is a request for each query, these are sent, each once. -/
  each : (∀ query ∈ place.queries limit, ∃ request, server.request (.list query) = .ok request) →
    List.Forall₂ (Server.IsRequest server) ((place.queries limit).map .list)
      (server.requests ((place.queries limit).map .list))
  /-- A query for which there is no request has failed. -/
  unsent : ∀ query ∈ place.queries limit, ∀ trouble,
    server.request (.list query) = .error trouble →
      .error trouble.failure ∈ w.pages server (place.queries limit)
  whole : (∀ answer ∈ w.pages server (place.queries limit), ∃ page, answer = .ok page) →
    ∃ count page : Page,
      ((place.queries limit).zip (w.pages server (place.queries limit))).head? =
        some (Query.probe, .ok count) ∧
      ((place.queries limit).zip (w.pages server (place.queries limit))).getLast? =
        some (place.page limit place.offset, .ok page) ∧
      (Printable page.items wide output →
        result = .ok (pageText ⟨page.items, page.total, count.total⟩ place.view wide output)) ∧
      (¬Printable page.items wide output → result = .error .tooWide)
  failed : (¬∀ answer ∈ w.pages server (place.queries limit), ∃ page, answer = .ok page) →
    ∃ (problem : Problem) (notifications : List Notification), result = .error problem ∧
      problem.text = Text.joinWith "\n" (notifications.map Notification.text) ∧
      notifications.Perm (reports (w.pages server (place.queries limit)))

section Run

variable {settings : Settings} {place : Place} (w : World) (wide : Bool) (output : OutputMode)

/-- What the command does with the page that it turned to. -/
def printed (wide : Bool) (output : OutputMode) (c : Controller) : Except Problem String :=
  if isPrintable c wide output then .ok (pageText c.machines c.activeView wide output)
  else .error .tooWide

/-- The command prints what it turned to, or has the problem that came up on the way. -/
theorem run_list {turned : Except Problem Controller} {later : World}
    (hturned : (turnTo (World.services settings) settings settings.dumpDir place).run.run w =
      (turned, later)) :
    (list (World.services settings) settings place output wide).run.run w =
      (turned.bind (printed wide output), later) := by
  rw [list]
  cases turned with
  | ok c =>
    rw [run_bind_ok hturned, listingText_eq, Except.bind, printed]
    split <;> rfl
  | error problem => rw [run_bind_error hturned, Except.bind]

theorem printsPage_list (hlimit : Query.checkLimit (place.pageSize settings) = .ok ()) :
    PrintsPage w settings.server place (place.pageSize settings) wide output
      ((list (World.services settings) settings place output wide).run.run w).1
      ((list (World.services settings) settings place output wide).run.run w).2 := by
  obtain ⟨turned, hturned, hwhere⟩ := run_turnTo place settings settings.dumpDir w hlimit
  rw [run_list w wide output hturned]
  refine ⟨⟨_, .refl _, w.asks_after _⟩, w.files_after _,
    fun hbuilt => Server.forall₂_requests ?_, ?_, fun hgood => ?_, fun hbad => ?_⟩
  · intro call hcall
    obtain ⟨query, hquery, rfl⟩ := List.mem_map.1 hcall
    exact hbuilt query hquery
  · intro query hquery trouble hrequest
    exact error_mem_pages hquery hrequest w
  · obtain ⟨count, page, hfirst, hlast, hlisting⟩ := ends_of_good hgood
    cases hwhere with
    | @arrived c _ hmachines hview _ =>
      have hprintable := isPrintable_iff c wide output
      rw [hmachines, hlisting] at hprintable
      refine ⟨count, page, hfirst, hlast, fun hall => ?_, fun hnot => ?_⟩
      · rw [Except.bind, printed, if_pos (hprintable.2 hall), hmachines, hview, hlisting]
      · rw [Except.bind, printed, if_neg (mt hprintable.1 hnot)]
    | stopped hfailed _ => exact absurd (reports_eq_nil.2 hgood) hfailed
  · cases hwhere with
    | arrived hgood _ _ _ => exact absurd hgood hbad
    | stopped _ hreported => exact ⟨_, _, rfl, rfl, hreported⟩

end Run

theorem run_listMachines {w : World} {invocation : Invocation} {place : Place} {output : OutputMode}
    {wide : Bool} {settings : Settings}
    (hcommand : invocation.command = .listMachines place output wide)
    (hsettings : invocation.settings w.files w.environment = .ok settings) :
    w.run invocation = (list (World.services settings) settings place output wide).run.run w := by
  rw [World.run, run, hcommand, hsettings]
  rfl

/-- A command that prints machines does nothing if its settings or its limit are not valid.
Otherwise it asks for the pages of its place and prints the last one, or fails as a whole. -/
theorem list_prints_page (w : World) {invocation : Invocation} {place : Place}
    {output : OutputMode} {wide : Bool}
    (hcommand : invocation.command = .listMachines place output wide) :
    (∀ problem, invocation.settings w.files w.environment = .error problem →
      w.run invocation = (.error (.settings problem), w)) ∧
    ∀ settings, invocation.settings w.files w.environment = .ok settings →
      if 1 ≤ place.pageSize settings ∧ place.pageSize settings ≤ 100 then
        PrintsPage w settings.server place (place.pageSize settings) wide output
          (w.run invocation).1 (w.run invocation).2
      else w.run invocation = (.error (.refused Query.limitFailure), w) := by
  refine ⟨fun problem hsettings => ?_, fun settings hsettings => ?_⟩
  · rw [World.run, run, hcommand, hsettings]
    rfl
  · have hlimit := Controller.checkLimit_eq (place.pageSize settings)
    simp only [Query.validLimit_iff] at hlimit
    rw [run_listMachines hcommand hsettings]
    split_ifs at hlimit ⊢ with hvalid
    · exact printsPage_list w wide output hlimit
    · rw [run_list w wide output (run_turnTo_refused place settings settings.dumpDir w hlimit),
        Except.bind]

/-- A server with two machines on two pages, and three newcomers. -/
def twoPages : World where
  reply before _ := some
    { status := 200
      body :=
        match before.length with
        | 0 => "\x7b\"total\":3\x7d".toUTF8.toList
        | 1 => "\x7b\"items\":[\x7b\"id\":1\x7d],\"total\":2\x7d".toUTF8.toList
        | _ =>
          "\x7b\"items\":[\x7b\"id\":2,\"hostname\":\"db-2\"\x7d],\"total\":2\x7d".toUTF8.toList }

def secondPage : Place := { limit := some 1, offset := 1, text := some " db " }

def listOfSecondPage : Invocation := { command := .listMachines secondPage .table false }

theorem list_of_second_page :
    PrintsPage twoPages ⟨"http://127.0.0.1:8080", "authorization", none⟩ secondPage 1 false .table
      (twoPages.run listOfSecondPage).1 (twoPages.run listOfSecondPage).2 ∧
    (twoPages.run listOfSecondPage).1 = .ok ("[Authorized]  Unauthorized (3)\ntotal: 2\n" ++
      "ID  HOSTNAME  ADDRESS  AGENT_VERSION  LAST_VISITED\n" ++
      "2   db-2      -        -              -\n") := by
  have hsettings : listOfSecondPage.settings twoPages.files twoPages.environment =
      .ok ⟨"http://127.0.0.1:8080", "authorization", none, 10, ".", 30⟩ := by decide +kernel
  have hprints := (list_prints_page twoPages
    (show listOfSecondPage.command = .listMachines secondPage .table false from rfl)).2 _ hsettings
  rw [if_pos (by decide)] at hprints
  exact ⟨hprints, by decide +kernel⟩

/-! ### Departures -/

/-- Where every reply is one page that cannot be printed as a table, every request succeeds and no
table is printed. -/
theorem list_tooWide {w : World} {settings : Settings} {place : Place} {wide : Bool}
    {listing : Listing} (hlisting : listing.IsProper)
    (hreply : ∀ before request, w.reply before request = some
      { status := 200, body := (Json.indentedText listing.toJson).toUTF8.toList })
    (hbuilt : ∀ query ∈ place.queries (place.pageSize settings),
      ∃ request, settings.server.request (.list query) = .ok request)
    (hlimit : Query.checkLimit (place.pageSize settings) = .ok ())
    (hwide : ¬Printable listing.items wide .table) :
    (∀ answer ∈ w.pages settings.server (place.queries (place.pageSize settings)),
      answer = .ok ⟨listing.items, listing.total⟩) ∧
    ((list (World.services settings) settings place .table wide).run.run w).1 =
      .error .tooWide := by
  have hread (query : Query) : Server.readResponse (.list query)
      { status := 200, body := (Json.indentedText listing.toJson).toUTF8.toList } =
        .ok ⟨listing.items, listing.total⟩ := by
    refine Server.readResponse_eq_ok.2 ⟨rfl, rfl, ?_⟩
    rw [Server.readBody, Server.decode_toUTF8, Listing.read_page hlisting]
    rfl
  have hpages := World.pages_of_reply hreply (fun _ => rfl) hread hbuilt
  refine ⟨hpages, ?_⟩
  obtain ⟨count, page, -, hlast, -, htooWide⟩ :=
    (printsPage_list w wide .table hlimit).whole fun answer hanswer => ⟨_, hpages answer hanswer⟩
  have hpage := hpages _ (List.of_mem_zip (List.mem_of_getLast? hlast)).2
  cases hpage
  exact htooWide hwide

/-- A command whose session field has a name that no field can have. -/
def listWithBadField : Invocation where
  overrides := { sessionHeader := some "bad header", sessionToken := some "abc" }
  command := .listMachines {} .table false

def listOfFirstPage : Invocation := { command := .listMachines {} .table false }

/-- A server without machines, which sends the client on to the same place at first. -/
def movedPage : World where
  reply before _ := some <|
    if before.isEmpty then
      { status := 307, fields := [("location", "/api/machines".toUTF8.toList)] }
    else { status := 200, body := "\x7b\x7d".toUTF8.toList }

/-- A listing with a name that is too long for a column. -/
def longListing : Listing where
  items := [{ id := 1, hostname := String.ofList (List.replicate 65536 'a') }]
  total := 1

def longName : World where
  reply _ _ := some
    { status := 200, body := (Json.indentedText longListing.toJson).toUTF8.toList }

theorem isProper_longListing : longListing.IsProper where
  wellFormed := List.forall_mem_singleton.2
    { id := by decide
      agentPort := by decide
      lastVisitedAt := nofun
      extra := .nil _
      names := nofun }
  integral := List.forall_mem_singleton.2 nofun
  total := by decide
  unauthorizedTotal := by decide

theorem not_printable_longListing : ¬Printable longListing.items false .table := by
  intro hall
  have hcell := hall rfl _ List.mem_cons_self (Display.optional (some _))
    (List.mem_cons_of_mem _ List.mem_cons_self)
  have hshown : Text.isBlankText (String.ofList (List.replicate 65536 'a')) = false := by
    rw [Text.isBlankText, String.toList_ofList, List.replicate_succ]
    rfl
  simp only [Display.optional, hshown, Bool.false_eq_true, if_false, String.length_ofList,
    List.length_replicate] at hcell
  exact absurd hcell (by decide)

/-- With valid settings nothing is sent if the field is not valid. Where the client is sent on, the
server gets one request more, and a page is printed although the first reply is no success. Where
all requests succeed, the page is not printed as a table if a name is too long. -/
theorem list_departs :
    ((∃ settings, listWithBadField.settings twoPages.files twoPages.environment = .ok settings ∧
        Place.pageSize {} settings = 10) ∧
      (twoPages.run listWithBadField).2.sent = [] ∧
      (twoPages.run listWithBadField).1.mapError Problem.text = .error
        ("error: Cannot get unauthorized machines count: " ++
          "invalid session header name 'bad header': invalid HTTP header name\n" ++
          "error: Cannot get machines list: " ++
          "invalid session header name 'bad header': invalid HTTP header name")) ∧
    ((movedPage.run listOfFirstPage).2.received.map Http.Request.target =
        ["/api/machines?start=0&limit=1&authorized=false", "/api/machines",
          "/api/machines?start=0&limit=10&authorized=true"] ∧
      (movedPage.run listOfFirstPage).1 =
        .ok "[Authorized]  Unauthorized\ntotal: 0\nno machines found\n") ∧
    (∀ answer ∈ longName.pages ⟨"http://127.0.0.1:8080", "authorization", none⟩
        (Place.queries {} 10), answer = .ok ⟨longListing.items, 1⟩) ∧
      (longName.run listOfFirstPage).1 = .error .tooWide := by
  refine ⟨⟨⟨⟨"http://127.0.0.1:8080", "bad header", some "abc", 10, ".", 30⟩, ?_, rfl⟩, ?_⟩, ?_, ?_⟩
  · decide +kernel
  · decide +kernel
  · decide +kernel
  have hsettings : listOfFirstPage.settings longName.files longName.environment =
      .ok ⟨"http://127.0.0.1:8080", "authorization", none, 10, ".", 30⟩ := by decide +kernel
  rw [run_listMachines rfl hsettings]
  have hbuilt : ∀ query ∈ Place.queries {} 10, ∃ request,
      Server.request ⟨"http://127.0.0.1:8080", "authorization", none⟩ (.list query) =
        .ok request := by
    have hall : (Place.queries {} 10).all (fun query =>
        (Server.request ⟨"http://127.0.0.1:8080", "authorization", none⟩
          (.list query)).toOption.isSome) = true := by decide +kernel
    intro query hquery
    obtain ⟨request, hrequest⟩ := Option.isSome_iff_exists.1 (List.all_eq_true.1 hall query hquery)
    exact ⟨request, toOption_eq_some.1 hrequest⟩
  exact @list_tooWide longName ⟨"http://127.0.0.1:8080", "authorization", none, 10, ".", 30⟩ {}
    false longListing isProper_longListing (fun _ _ => rfl) hbuilt (by decide)
    not_printable_longListing

end Command

end FleetConsole
