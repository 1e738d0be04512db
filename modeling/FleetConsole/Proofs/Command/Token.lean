import FleetConsole.Proofs.Command.Dump
import FleetConsole.Proofs.Command.List

/-!
# The token is replaced only when asked for

Every command sends the requests for certain calls, and the only call that replaces the token is
made by one command, after the answer to another call has been found good (`token_cases`). Since
both calls go to the same place, the second one can be sent whenever the first one was answered, so
it is sent exactly then, and once.
-/

namespace FleetConsole

/-- What comes of a call in the end is a complete success whose body is a token. -/
def World.GivesToken (w : World) (server : Server) (call : Server.Call) (token : String) : Prop :=
  ∃ request response, server.request call = .ok request ∧
    w.Brings request response ∧ Http.isSuccess response.status = true ∧
    response.complete = true ∧
    Server.decode (Json.Read.soleText "token") response.body = .ok token

section Answer

variable {w : World} {server : Server} {token : String}

theorem answer_token_eq_ok :
    w.answer server .token = .ok token ↔ w.GivesToken server .token token :=
  World.answer_eq_ok

theorem answer_regenerate_eq_ok :
    w.answer server .regenerate = .ok token ↔ w.GivesToken server .regenerate token :=
  World.answer_eq_ok

end Answer

namespace Command

/-! ### The two operations -/

section Operation

variable {settings : Settings} {dir : String} {w : World}

/-- An operation that sends one request and waits for its answer. -/
theorem run_performAll_single {c : Controller} {event answer : Controller.Event}
    {request : Request} {later : World} (hrequests : (c.step event).2.requests = [request])
    (hsettled : ((World.services settings).settle request).run w = (answer, later))
    (hnone : ∀ serial artifact, answer ≠ .dumpAnswered serial (.ok artifact)) :
    (performAll (World.services settings) dir c [event]).run w =
      ((((c.step event).1.step answer).1,
        [(c.step event).2, ((c.step event).1.step answer).2]), later) := by
  have hsettled := run_settle_one hsettled
  rw [← hrequests] at hsettled
  obtain ⟨arrived, harrived, hperformed⟩ :=
    run_perform_answers dir c event hsettled (by simpa using hnone)
  have harrived : arrived = [answer] := by
    rcases harrived with harrived | harrived <;> exact harrived
  rw [harrived] at hperformed
  exact run_performAll_one hperformed

theorem run_settle_fetch (settings : Settings) (w : World) (serial attempt : Nat) :
    ((World.services settings).settle (.token ⟨serial, .fetch attempt⟩)).run w =
      (.tokenAnswered serial (w.answer settings.server .token),
        w.after (settings.server.requests [.token])) :=
  World.run_ask_map settings.server .token w (Controller.Event.tokenAnswered serial)

theorem run_settle_regenerate (settings : Settings) (w : World) (serial : Nat) :
    ((World.services settings).settle (.token ⟨serial, .regenerate⟩)).run w =
      (.tokenAnswered serial (w.answer settings.server .regenerate),
        w.after (settings.server.requests [.regenerate])) :=
  World.run_ask_map settings.server .regenerate w (Controller.Event.tokenAnswered serial)

/-- A controller with an open instruction, after some requests for tokens. -/
def showing (token : String) (issued : Nat) : Controller where
  listing := Listing.Desk.initial Query.defaultLimit none
  token := { panel := ⟨⟨.shown, true, token⟩, 1⟩, issued }

/-- What is left to report of an answer to a request for a token. -/
def tokenReport (purpose : Token.Purpose) : Except Failure String → List Notification
  | .ok _ => []
  | .error failure => [Notification.ofFailure purpose.failureSummary failure]

theorem run_show (settings : Settings) (dir : String) (w : World) :
    ∃ last effects, (performAll (World.services settings) dir
        { listing := Listing.Desk.initial Query.defaultLimit none } [.showToken]).run w =
          ((last, effects), w.after (settings.server.requests [.token])) ∧
      errors effects = tokenReport (.fetch 1) (w.answer settings.server .token) ∧
      ∀ token, w.answer settings.server .token = .ok token → last = showing token 1 := by
  refine ⟨_, _, run_performAll_single rfl (run_settle_fetch settings w 1 1) nofun, ?_, ?_⟩
  · cases w.answer settings.server .token <;> rfl
  · intro token hanswer
    rw [hanswer]
    rfl

theorem run_regenerate (settings : Settings) (dir : String) (w : World) (token : String) :
    ∃ last effects, (performAll (World.services settings) dir (showing token 1)
        [.regenerateToken]).run w =
          ((last, effects), w.after (settings.server.requests [.regenerate])) ∧
      errors effects = tokenReport .regenerate (w.answer settings.server .regenerate) ∧
      ∀ other, w.answer settings.server .regenerate = .ok other → last = showing other 2 := by
  refine ⟨_, _, run_performAll_single rfl (run_settle_regenerate settings w 2) nofun, ?_, ?_⟩
  · cases w.answer settings.server .regenerate <;> rfl
  · intro other hanswer
    rw [hanswer]
    rfl

end Operation

/-! ### The commands -/

section Run

variable {settings : Settings} {w : World}

/-- The instruction with a token as it is printed. -/
def printedInstruction (settings : Settings) (token : String) : String :=
  Text.joinWith "\n"
    ["Install the agent on the machine and register it with this server:",
      "  server url:   " ++ Text.trimEnd '/' settings.serverUrl,
      "  server token: " ++ token] ++ "\n"

/-- How a command about the token ends, and the world afterwards: with the first bad answer, or with
the token of the last one. -/
inductive Tokened (w : World) (settings : Settings) :
    (replaced : Bool) → Except Problem String → World → Prop
  | notShown {replaced : Bool} {failure : Failure}
      (hshow : w.answer settings.server .token = .error failure) :
      Tokened w settings replaced
        (.error (.reported [Notification.ofFailure "Cannot get server token" failure]))
        (w.after (settings.server.requests [.token]))
  | shown {token : String} (hshow : w.answer settings.server .token = .ok token) :
      Tokened w settings false (.ok (printedInstruction settings token))
        (w.after (settings.server.requests [.token]))
  | notReplaced {token : String} {failure : Failure}
      (hshow : w.answer settings.server .token = .ok token)
      (hreplace : (w.after (settings.server.requests [.token])).answer settings.server .regenerate =
        .error failure) :
      Tokened w settings true
        (.error (.reported [Notification.ofFailure "Cannot regenerate server token" failure]))
        (w.after (settings.server.requests [.token, .regenerate]))
  | replaced {token other : String} (hshow : w.answer settings.server .token = .ok token)
      (hreplace : (w.after (settings.server.requests [.token])).answer settings.server .regenerate =
        .ok other) :
      Tokened w settings true (.ok (printedInstruction settings other))
        (w.after (settings.server.requests [.token, .regenerate]))

theorem token_cases (settings : Settings) (replaced : Bool) (w : World) :
    Tokened w settings replaced
      ((token (World.services settings) settings replaced).run.run w).1
      ((token (World.services settings) settings replaced).run.run w).2 := by
  have hbegun := run_begin {} w
  obtain ⟨first, effects, hperformed, hreported, hfirst⟩ := run_show settings settings.dumpDir w
  have hcarried := run_carryOut hperformed
  rw [token, run_bind_ok hbegun]
  cases hshow : w.answer settings.server .token with
  | error failure =>
    rw [checked, hreported, hshow] at hcarried
    rw [run_bind_error hcarried]
    exact .notShown hshow
  | ok token =>
    rw [checked, hreported, hshow] at hcarried
    rw [run_bind_ok hcarried, hfirst token hshow]
    cases replaced with
    | false => exact .shown hshow
    | true =>
      obtain ⟨last, later, hperformed, hreported, hlast⟩ := run_regenerate settings
        settings.dumpDir (w.after (settings.server.requests [.token])) token
      have hcarried := run_carryOut hperformed
      rw [World.after_append, ← Server.requests_append] at hcarried
      cases hreplace : (w.after (settings.server.requests [.token])).answer settings.server
          .regenerate with
      | error failure =>
        rw [checked, hreported, hreplace] at hcarried
        simp only [if_true]
        rw [run_bind_error hcarried]
        exact .notReplaced hshow hreplace
      | ok other =>
        rw [checked, hreported, hreplace, hlast other hreplace] at hcarried
        simp only [if_true]
        rw [run_bind_ok hcarried]
        exact .replaced hshow hreplace

end Run

/-! ### What is printed -/

/-- What a command about the token prints, or which step it failed at and why. -/
structure PrintsToken (w : World) (settings : Settings) (replaced : Bool)
    (result : Except Problem String) : Prop where
  shows : replaced = false → ∀ token, w.GivesToken settings.server .token token →
    result = .ok (printedInstruction settings token)
  /-- The token that is printed is the one that came last. -/
  replaces : replaced = true → ∀ token other, w.GivesToken settings.server .token token →
    (w.after (settings.server.requests [.token])).GivesToken settings.server .regenerate other →
      result = .ok (printedInstruction settings other)
  cannot_show : (¬∃ token, w.GivesToken settings.server .token token) →
    ∃ (failure : Failure) (problem : Problem),
      w.answer settings.server .token = .error failure ∧ result = .error problem ∧
      problem.text = "error: Cannot get server token: " ++ failure.reason
  cannot_replace : replaced = true → ∀ token, w.GivesToken settings.server .token token →
    (¬∃ other, (w.after (settings.server.requests [.token])).GivesToken settings.server
      .regenerate other) →
    ∃ (failure : Failure) (problem : Problem),
      (w.after (settings.server.requests [.token])).answer settings.server .regenerate =
        .error failure ∧ result = .error problem ∧
      problem.text = "error: Cannot regenerate server token: " ++ failure.reason

theorem Tokened.printsToken {w later : World} {settings : Settings} {replaced : Bool}
    {result : Except Problem String} (htokened : Tokened w settings replaced result later) :
    PrintsToken w settings replaced result := by
  constructor
  · intro hreplaced token hgives
    have hshow := answer_token_eq_ok.2 hgives
    cases htokened <;> simp_all
  · intro hreplaced token other hgives hother
    have hshow := answer_token_eq_ok.2 hgives
    have hreplace := answer_regenerate_eq_ok.2 hother
    cases htokened <;> simp_all
  · intro hnot
    cases htokened with
    | notShown hshow => exact ⟨_, _, hshow, rfl, rfl⟩
    | shown hshow => exact absurd ⟨_, answer_token_eq_ok.1 hshow⟩ hnot
    | notReplaced hshow _ => exact absurd ⟨_, answer_token_eq_ok.1 hshow⟩ hnot
    | replaced hshow _ => exact absurd ⟨_, answer_token_eq_ok.1 hshow⟩ hnot
  · intro hreplaced token hgives hnot
    have hshow := answer_token_eq_ok.2 hgives
    cases htokened with
    | notShown hfailed => simp_all
    | shown _ => cases hreplaced
    | notReplaced _ hreplace => exact ⟨_, _, hreplace, rfl, rfl⟩
    | replaced _ hreplace => exact absurd ⟨_, answer_regenerate_eq_ok.1 hreplace⟩ hnot

/-! ### What is sent -/

/-- The requests that replace the token. -/
def rotations (requests : List Http.Request) : List Http.Request :=
  requests.filter fun request => request.method = .put

theorem rotations_eq_nil {requests : List Http.Request}
    (hget : ∀ request ∈ requests, request.method = .get) : rotations requests = [] := by
  rw [rotations, List.filter_eq_nil_iff]
  intro request hrequest
  rw [hget request hrequest]
  decide

/-- From a world to a later one no request that replaces the token reaches the server, also not in
following redirects. -/
def OnlyAsks (w later : World) : Prop :=
  ∃ requests trails, later.trails = w.trails ++ trails ∧ w.Sends requests trails ∧
    rotations (trails.flatMap Http.Trail.requests) = []

theorem onlyAsks_of_asks {w later : World} {requests : List Http.Request}
    (hasks : w.Asks requests later) (hget : ∀ request ∈ requests, request.method = .get) :
    OnlyAsks w later := by
  obtain ⟨trails, hlater, hsends⟩ := hasks
  refine ⟨requests, trails, hlater, hsends, rotations_eq_nil fun request hrequest => ?_⟩
  obtain ⟨trail, htrail, hmem⟩ := List.mem_flatMap.1 hrequest
  obtain ⟨front, back, htrails⟩ := List.append_of_mem htrail
  have hfirst : trail.request ∈ requests := by
    rw [← hsends.own]
    exact List.mem_map_of_mem htrail
  exact (hsends.leads front trail back htrails).get (hget _ hfirst) request hmem

theorem onlyAsks_refl (w : World) : OnlyAsks w w :=
  onlyAsks_of_asks (w.asks_after []) (by simp)

theorem method_of_mem_requests {server : Server} {calls : List Server.Call}
    (hcalls : ∀ call ∈ calls, call.method = .get) :
    ∀ request ∈ server.requests calls, request.method = .get := by
  intro request hrequest
  obtain ⟨call, hcall, hbuilt⟩ := Server.mem_requests.1 hrequest
  rw [(Server.isRequest hbuilt).method, hcalls call hcall]

theorem get_of_mem_queries (queries : List Query) :
    ∀ call ∈ queries.map Server.Call.list, call.method = .get := by
  intro call hcall
  obtain ⟨query, -, rfl⟩ := List.mem_map.1 hcall
  rfl

section Sent

variable (settings : Settings) (place : Place) (w : World)

theorem onlyAsks_list (wide : Bool) (output : OutputMode) :
    OnlyAsks w ((list (World.services settings) settings place output wide).run.run w).2 := by
  cases hlimit : Query.checkLimit (place.pageSize settings) with
  | ok =>
    obtain ⟨requests, hperm, hasks⟩ := (printsPage_list w wide output hlimit).sent
    exact onlyAsks_of_asks hasks fun request hrequest =>
      method_of_mem_requests (get_of_mem_queries _) request (hperm.mem_iff.1 hrequest)
  | error failure =>
    rw [run_list w wide output (run_turnTo_refused place settings settings.dumpDir w hlimit)]
    exact onlyAsks_refl w

theorem onlyAsks_dump (id : Int) (out : Option String) :
    OnlyAsks w ((dump (World.services settings) settings id place out).run.run w).2 := by
  cases hlimit : Query.checkLimit (place.pageSize settings) with
  | ok =>
    obtain ⟨hshown, hunshown⟩ := run_dump id w out hlimit
    have hqueries := get_of_mem_queries (place.queries (place.pageSize settings))
    by_cases hshows : Shows id (w.pages settings.server (place.queries (place.pageSize settings)))
    · have hcalls : ∀ call ∈ (place.queries (place.pageSize settings)).map Server.Call.list ++
          [Server.Call.dump id], call.method = .get := by
        intro call hcall
        rcases List.mem_append.1 hcall with hcall | hcall
        · exact hqueries call hcall
        · cases List.mem_singleton.1 hcall
          rfl
      rw [hshown hshows]
      refine onlyAsks_of_asks (asks_fetch w _ _ _ _) ?_
      rw [← Server.requests_append]
      exact method_of_mem_requests hcalls
    · obtain ⟨notifications, hrun⟩ := hunshown hshows
      rw [hrun]
      exact onlyAsks_of_asks (w.asks_after _) (method_of_mem_requests hqueries)
  | error failure =>
    have hrefused := run_turnTo_refused place settings (out.getD settings.dumpDir) w hlimit
    rw [dump, run_bind_error hrefused]
    exact onlyAsks_refl w

end Sent

/-- Whether another token is to be asked for: by this command, with valid settings, and after a
token could be shown. -/
def RotationDue (w : World) (invocation : Invocation) : Prop :=
  invocation.command = .regenerateToken ∧
    ∃ settings, invocation.settings w.files w.environment = .ok settings ∧
      ∃ token, w.GivesToken settings.server .token token

/-- From a world to a later one the console asks for the token and then, once, for another one. Only
the latter request can lead to others that replace the token. -/
def RotatesOnce (w : World) (server : Server) (later : World) : Prop :=
  ∃ first last : Http.Trail, later.trails = w.trails ++ [first, last] ∧
    w.Sends [first.request, last.request] [first, last] ∧
    Server.IsRequest server .token first.request ∧
    Server.IsRequest server .regenerate last.request ∧ rotations first.requests = []

theorem rotatesOnce_of_asks {w later : World} {server : Server} {token : String}
    (hgives : w.GivesToken server .token token)
    (hasks : w.Asks (server.requests [.token, .regenerate]) later) :
    RotatesOnce w server later := by
  obtain ⟨asking, -, hasking, -⟩ := hgives
  obtain ⟨replacing, hreplacing⟩ := Server.regenerate_of_token hasking
  have hrequests : server.requests [.token, .regenerate] = [asking, replacing] := by
    rw [← List.singleton_append, Server.requests_append, Server.requests_of_eq_ok hasking,
      Server.requests_of_eq_ok hreplacing, List.singleton_append]
  rw [hrequests] at hasks
  obtain ⟨trails, hlater, hsends⟩ := hasks
  obtain ⟨first, rest, rfl, rfl, hrest⟩ := List.map_eq_cons_iff.1 hsends.own
  obtain ⟨last, others, rfl, rfl, hnil⟩ := List.map_eq_cons_iff.1 hrest
  rw [List.map_eq_nil_iff.1 hnil] at hlater hsends
  have hfirst := Server.isRequest hasking
  exact ⟨first, last, hlater, hsends, hfirst, Server.isRequest hreplacing,
    rotations_eq_nil ((hsends.leads [] first [last] rfl).get hfirst.method)⟩

/-- Requests that replace the token, if that is due. -/
structure RotatesIf (due : Prop) (w : World) (server : Server) (later : World) : Prop where
  once : due → RotatesOnce w server later
  never : ¬due → OnlyAsks w later

theorem Tokened.rotates {w later : World} {settings : Settings} {replaced : Bool}
    {result : Except Problem String} (htokened : Tokened w settings replaced result later) :
    RotatesIf (replaced = true ∧ ∃ token, w.GivesToken settings.server .token token) w
      settings.server later := by
  have hget : ∀ call ∈ [Server.Call.token], call.method = .get := by simp [Server.Call.method]
  have honly := onlyAsks_of_asks (w.asks_after (settings.server.requests [.token]))
    (method_of_mem_requests hget)
  cases htokened with
  | notShown hshow =>
    refine ⟨fun hdue => ?_, fun _ => honly⟩
    obtain ⟨-, token, hgives⟩ := hdue
    rw [answer_token_eq_ok.2 hgives] at hshow
    cases hshow
  | shown => exact ⟨fun hdue => absurd hdue.1 Bool.false_ne_true, fun _ => honly⟩
  | notReplaced hshow _ | replaced hshow _ =>
    have hgives := answer_token_eq_ok.1 hshow
    exact ⟨fun _ => rotatesOnce_of_asks hgives (w.asks_after _),
      fun hnot => absurd ⟨rfl, _, hgives⟩ hnot⟩

/-! ### Every command -/

theorem run_of_settings_error {w : World} {invocation : Invocation} {problem : SettingsProblem}
    (hsettings : invocation.settings w.files w.environment = .error problem) :
    (w.run invocation).2 = w := by
  rw [World.run, run, hsettings]
  cases invocation.command <;> rfl

theorem rotationDue_iff {w : World} {invocation : Invocation} {settings : Settings}
    (hcommand : invocation.command = .regenerateToken)
    (hsettings : invocation.settings w.files w.environment = .ok settings) :
    RotationDue w invocation ↔
      (true = true ∧ ∃ token, w.GivesToken settings.server .token token) := by
  constructor
  · rintro ⟨-, other, hother, hgives⟩
    rw [hsettings] at hother
    cases hother
    exact ⟨rfl, hgives⟩
  · rintro ⟨-, hgives⟩
    exact ⟨hcommand, settings, hsettings, hgives⟩

theorem rotates_run {w : World} {invocation : Invocation} {settings : Settings}
    (hsettings : invocation.settings w.files w.environment = .ok settings) :
    RotatesIf (RotationDue w invocation) w settings.server (w.run invocation).2 := by
  have hother : invocation.command ≠ .regenerateToken → OnlyAsks w (w.run invocation).2 →
      RotatesIf (RotationDue w invocation) w settings.server (w.run invocation).2 :=
    fun hne honly => ⟨fun hdue => absurd hdue.1 hne, fun _ => honly⟩
  rw [World.run, run, hsettings] at hother ⊢
  cases hcommand : invocation.command with
  | listMachines place output wide =>
    rw [hcommand] at hother
    exact hother (by simp) (onlyAsks_list settings place w wide output)
  | dumpMachine id place out =>
    rw [hcommand] at hother
    exact hother (by simp) (onlyAsks_dump settings place w id out)
  | showToken =>
    rw [hcommand] at hother
    exact hother (by simp) ((token_cases settings false w).rotates.never
      fun hdue => Bool.false_ne_true hdue.1)
  | regenerateToken =>
    rw [rotationDue_iff hcommand hsettings]
    exact (token_cases settings true w).rotates
  | menu role =>
    rw [hcommand] at hother
    exact hother (by simp) (onlyAsks_refl w)

/-- A run asks for another token exactly if that is due, and a command about the token prints the
last token it was given or says which step failed and why. -/
theorem token_replaced_only_when_asked (w : World) (invocation : Invocation) :
    (RotationDue w invocation → ∃ settings,
      invocation.settings w.files w.environment = .ok settings ∧
      RotatesOnce w settings.server (w.run invocation).2) ∧
    (¬RotationDue w invocation → OnlyAsks w (w.run invocation).2) ∧
    (∀ problem, invocation.settings w.files w.environment = .error problem →
      invocation.command = .showToken ∨ invocation.command = .regenerateToken →
        w.run invocation = (.error (.settings problem), w)) ∧
    ∀ settings, invocation.settings w.files w.environment = .ok settings →
      (invocation.command = .showToken → PrintsToken w settings false (w.run invocation).1) ∧
      (invocation.command = .regenerateToken →
        PrintsToken w settings true (w.run invocation).1) := by
  refine ⟨fun hdue => ?_, fun hnot => ?_, ?_, ?_⟩
  · obtain ⟨-, settings, hsettings, -⟩ := id hdue
    exact ⟨settings, hsettings, (rotates_run hsettings).once hdue⟩
  · cases hsettings : invocation.settings w.files w.environment with
    | error problem =>
      rw [run_of_settings_error hsettings]
      exact onlyAsks_refl w
    | ok settings => exact (rotates_run hsettings).never hnot
  · intro problem hsettings hcommand
    rw [World.run, run, hsettings]
    rcases hcommand with hcommand | hcommand
    · rw [hcommand]
      rfl
    · rw [hcommand]
      rfl
  · intro settings hsettings
    rw [World.run, run, hsettings]
    refine ⟨fun hcommand => ?_, fun hcommand => ?_⟩
    · rw [hcommand]
      exact (token_cases settings false w).printsToken
    · rw [hcommand]
      exact (token_cases settings true w).printsToken

/-- A server that has a token, and another one when asked. -/
def twoTokens : World where
  reply _ request := some
    { status := 200
      body :=
        match request.method with
        | .get => "\x7b\"token\":\"old\"\x7d".toUTF8.toList
        | .put => "\x7b\"token\":\"new\"\x7d".toUTF8.toList }

def replaceToken : Invocation := { command := .regenerateToken }

theorem token_replaced_once :
    RotationDue twoTokens replaceToken ∧
    RotatesOnce twoTokens ⟨"http://127.0.0.1:8080", "authorization", none⟩
      (twoTokens.run replaceToken).2 ∧
    (twoTokens.run replaceToken).1 = .ok
      ("Install the agent on the machine and register it with this server:\n" ++
        "  server url:   http://127.0.0.1:8080\n" ++ "  server token: new\n") := by
  have hsettings : replaceToken.settings twoTokens.files twoTokens.environment =
      .ok ⟨"http://127.0.0.1:8080", "authorization", none, 10, ".", 30⟩ := by decide +kernel
  have hdue : RotationDue twoTokens replaceToken := by
    refine ⟨rfl, _, hsettings, "old", answer_token_eq_ok.1 ?_⟩
    decide +kernel
  obtain ⟨settings, hvalid, hrotates⟩ :=
    (token_replaced_only_when_asked twoTokens replaceToken).1 hdue
  rw [hsettings] at hvalid
  cases hvalid
  exact ⟨hdue, hrotates, by decide +kernel⟩

/-- A server like that, which sends the client on to the same place when it is first asked for
another token. -/
def sendsOn (status : Nat) : World where
  reply before request := some <|
    match request.method with
    | .get => { status := 200, body := "\x7b\"token\":\"old\"\x7d".toUTF8.toList }
    | .put =>
      if (rotations before).isEmpty then
        { status, fields := [("location", "/api/machines-server-token".toUTF8.toList)] }
      else { status := 200, body := "\x7b\"token\":\"new\"\x7d".toUTF8.toList }

/-- If the method is to be kept, the server is asked for another token twice. If it is not, the
token that is printed is not another one. -/
theorem token_replaced_after_redirect :
    (((sendsOn 307).run replaceToken).2.received.map Http.Request.method = [.get, .put, .put] ∧
      ((sendsOn 307).run replaceToken).1 = .ok
        ("Install the agent on the machine and register it with this server:\n" ++
          "  server url:   http://127.0.0.1:8080\n" ++ "  server token: new\n")) ∧
    ((sendsOn 303).run replaceToken).2.received.map Http.Request.method = [.get, .put, .get] ∧
      ((sendsOn 303).run replaceToken).1 = .ok
        ("Install the agent on the machine and register it with this server:\n" ++
          "  server url:   http://127.0.0.1:8080\n" ++ "  server token: old\n") := by
  decide +kernel

end Command

end FleetConsole
