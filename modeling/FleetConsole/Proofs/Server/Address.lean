import FleetConsole.Proofs.Server.Query
import FleetConsole.Proofs.Url.Below
import FleetConsole.Settings.Validate

/-!
# Where requests go

Settings are valid only if the address of the server can be read. What is read for a request is
another text, in which the path of the call stands behind that of the address. So requests go to the
scheme, the host and the port of the address, if they can be sent at all, but to the right place
below it exactly if the text of the address is one to put names behind (`requests_go_below_iff`).
-/

namespace FleetConsole.Server

open Text

/-! ### Places below an address -/

/-- A request that goes to the place of its call below an address, and tells the server what belongs
to the call only. -/
structure GoesTo (url : Url) (call : Call) (sent : Url) : Prop where
  path : sent.path.chars = dropEndWhile (· = '/') url.path.chars ++ call.path.toList
  query : told sent = call.parameters

/-- Whether a request can be sent to the place of a call below an address. -/
structure CanSend (server : Server) (url : Url) (call : Call) : Prop where
  session : ∃ session, server.sessionName = .ok session ∧ Tellable session
  host : ((url.host.map Url.Host.chars).getD []).any isUnsendable = false
  short : ((withLogin (url.below call.names)).1.withParameters call.parameters).chars.length ≤
    longestUrl

/-! ### Requests -/

/-- Neither credentials nor parameters change the server and the place that an address leads to. -/
theorem requestTo_place (session : Option (String × String)) (call : Call) (url : Url) :
    (requestTo session call url).url.scheme = url.scheme ∧
      (requestTo session call url).url.host = url.host ∧
      (requestTo session call url).url.port = url.port ∧
      (requestTo session call url).url.path = url.path := by
  simp only [requestTo, withLogin, Url.withParameters]
  split <;> split <;> exact ⟨rfl, rfl, rfl, rfl⟩

theorem stays_names (call : Call) : ∀ name ∈ call.names, Url.Stays name :=
  fun name hname => Url.stays_of_plain (plain_names call name hname)

theorem mem_names (call : Call) : "api".toList ∈ call.names := by
  cases call <;> exact List.mem_cons_self

/-- A path begins with a slash, and every character of it is seen. -/
theorem visible_path (call : Call) : (∃ cs, call.path.toList = '/' :: cs) ∧
    ∀ c ∈ call.path.toList, 0x20 < c.toNat := by
  rw [toList_path]
  refine ⟨?_, fun c hc => Url.visible_of_mem_slashed (plain_names call) hc⟩
  cases call <;> exact ⟨_, rfl⟩

section Follows

variable {server : Server} {url : Url} {own rest : List Char}
  (hfollows : Url.Follows server.base url own rest) (call : Call)

include hfollows

theorem callUrl_eq_behind :
    callUrl server.base call = .ok (url.behind (rest ++ call.path.toList)) := by
  obtain ⟨⟨cs, hcs⟩, hseen⟩ := visible_path call
  have hhost : (url.behind (rest ++ call.path.toList)).host.isSome = true := hfollows.host
  rw [callUrl, urlText, hfollows.below call.path cs hcs hseen]
  exact if_pos hhost

theorem goesTo_iff (session : Option (String × String)) :
    GoesTo url call (requestTo session call (url.behind (rest ++ call.path.toList))).url ↔
      Url.IsBase server.base url := by
  have hpath := (requestTo_place session call (url.behind (rest ++ call.path.toList))).2.2.2
  have hbelow := hfollows.isBase_iff (stays_names call) ⟨_, mem_names call, by decide⟩
  rw [← toList_path, ← hpath] at hbelow
  refine ⟨fun hgoes => hbelow.1 hgoes.path, fun hbase => ⟨hbelow.2 hbase, ?_⟩⟩
  have hunmarked := hfollows.tail_eq_none_iff.1 ⟨hbase.query, hbase.fragment⟩
  rw [told_requestTo, toList_path,
    hfollows.behind_slashed (List.ne_nil_of_mem (mem_names call)) (stays_names call) hunmarked]
  rfl

theorem exists_request_iff (hhttp : url.isHttp = true) (hbase : Url.IsBase server.base url) :
    (∃ request, server.request call = .ok request) ↔ CanSend server url call := by
  have hplace := callUrl_eq_behind hfollows call
  rw [toList_path, hfollows.behind_eq_below hbase (stays_names call)
    (List.ne_nil_of_mem (mem_names call))] at hplace
  have hbelow : (url.below call.names).isHttp = url.isHttp ∧
      (url.below call.names).host = url.host := by
    rw [Url.below]
    split <;> exact ⟨rfl, rfl⟩
  have hsendable : ∀ session, isSendable (requestTo session call (url.below call.names)).url =
      true ↔ ((url.host.map Url.Host.chars).getD []).any isUnsendable = false ∧
        ((withLogin (url.below call.names)).1.withParameters call.parameters).chars.length ≤
          longestUrl := by
    intro session
    have hsame := requestTo_place session call (url.below call.names)
    have hscheme : (requestTo session call (url.below call.names)).url.isHttp = true := by
      rw [← hhttp, ← hbelow.1, Url.isHttp, Url.isHttp, hsame.1]
    rw [isSendable, hscheme, hsame.2.1, hbelow.2, Bool.true_and, Bool.and_eq_true,
      Bool.not_eq_true', decide_eq_true_iff]
    rfl
  constructor
  · rintro ⟨request, hrequest⟩
    obtain ⟨session, place, hsession, htellable, hurl, rfl, hsend⟩ := of_request_eq_ok hrequest
    cases hplace.symm.trans hurl
    exact ⟨⟨session, hsession, htellable⟩, ((hsendable session).1 hsend).1,
      ((hsendable session).1 hsend).2⟩
  · rintro ⟨⟨session, hsession, htellable⟩, hhost, hshort⟩
    exact ⟨_, request_eq_ok_of hsession htellable hplace ((hsendable session).2 ⟨hhost, hshort⟩)⟩

end Follows

/-- Valid settings have the address of a server that requests can be sent to. -/
theorem exists_url_of_valid {settings : Settings} (hvalid : settings.validate = .ok ()) :
    ∃ url, Url.parse settings.serverUrl = .ok url ∧ url.isHttp = true := by
  rw [Settings.validate] at hvalid
  split at hvalid
  · rename_i url hread
    have hhttp := (ite_error_eq_ok.1 hvalid).1
    exact ⟨url, hread, by simpa using hhttp⟩
  · cases hvalid

/-- With valid settings requests go to the scheme, the host and the port of the address, and below
its path with nothing but their own parameters exactly if the text of the address is one to put
names behind. Then there are requests exactly if they can be sent. -/
theorem requests_go_below_iff {settings : Settings} (hvalid : settings.validate = .ok ()) :
    ∃ url, Url.parse settings.serverUrl = .ok url ∧ ∀ call,
      (∀ request, settings.server.request call = .ok request →
        (request.url.scheme = url.scheme ∧ request.url.host = url.host ∧
          request.url.port = url.port) ∧
        (GoesTo url call request.url ↔ Url.IsBase settings.serverUrl url)) ∧
      (Url.IsBase settings.serverUrl url →
        ((∃ request, settings.server.request call = .ok request) ↔
          CanSend settings.server url call)) := by
  obtain ⟨url, hread, hhttp⟩ := exists_url_of_valid hvalid
  refine ⟨url, hread, fun call => ?_⟩
  rcases Url.parse_below hread hhttp with ⟨own, rest, hfollows⟩ | ⟨hblank, hnone⟩
  · have hserver : Url.Follows settings.server.base url own rest := hfollows
    refine ⟨fun request hrequest => ?_, exists_request_iff hserver call hhttp⟩
    obtain ⟨session, place, -, -, hurl, rfl, -⟩ := of_request_eq_ok hrequest
    cases (callUrl_eq_behind hserver call).symm.trans hurl
    obtain ⟨hscheme, hhost, hport, -⟩ :=
      requestTo_place session call (url.behind (rest ++ call.path.toList))
    exact ⟨⟨hscheme, hhost, hport⟩, goesTo_iff hserver call session⟩
  · refine ⟨fun request hrequest => ?_, fun hbase => absurd hbase.visible hblank⟩
    obtain ⟨⟨cs, hcs⟩, hseen⟩ := visible_path call
    obtain ⟨session, place, -, -, hurl, -⟩ := of_request_eq_ok hrequest
    exact absurd (of_callUrl_eq_ok hurl).1 (hnone _ cs hcs hseen place)

/-- Settings with a server in a directory. -/
def inDirectory : Settings :=
  ⟨"http://fleet.example:8080/x/.//", "authorization", none, 10, ".", 30⟩

theorem token_asked_in_directory : inDirectory.validate = .ok () ∧
    ∃ url request, Url.parse inDirectory.serverUrl = .ok url ∧
      Url.IsBase inDirectory.serverUrl url ∧
      inDirectory.server.request .token = .ok request ∧ GoesTo url .token request.url ∧
      request.url.text = "http://fleet.example:8080/x/api/machines-server-token" := by
  have hvalid : inDirectory.validate = .ok () := by decide +kernel
  obtain ⟨url, hurl, hcalls⟩ := requests_go_below_iff hvalid
  have hparts : (Url.parse inDirectory.serverUrl).toOption.map
      (fun url => (url.query, url.fragment)) = some (none, none) := by decide +kernel
  have hsingle : (Url.parse (trimEnd '/' inDirectory.serverUrl ++ "/")).toOption.map
      (fun place => place.path.chars) = some "/x/".toList := by decide +kernel
  have htext : (inDirectory.server.request .token).toOption.map (fun request => request.url.text) =
      some "http://fleet.example:8080/x/api/machines-server-token" := by decide +kernel
  rw [hurl] at hparts
  obtain ⟨hquery, hfragment⟩ := Prod.mk.inj (Option.some.inj hparts)
  have hbase : Url.IsBase inDirectory.serverUrl url := by
    refine ⟨hquery, hfragment, by decide +kernel, fun place hplace => ?_⟩
    rw [hplace] at hsingle
    have hchars : place.path.chars = "/x/".toList := Option.some.inj hsingle
    rw [hchars]
    decide
  obtain ⟨request, hrequest, htext⟩ := Option.map_eq_some_iff.1 htext
  rw [toOption_eq_some] at hrequest
  exact ⟨hvalid, url, request, hurl, hbase, hrequest,
    (((hcalls .token).1 request hrequest).2).2 hbase, htext⟩

/-- Settings with a server whose address has a query. -/
def withQuery : Settings := ⟨"http://fleet.example?x=1", "authorization", none, 10, ".", 30⟩

theorem token_asked_in_query : withQuery.validate = .ok () ∧
    ∃ url request, Url.parse withQuery.serverUrl = .ok url ∧
      withQuery.server.request .token = .ok request ∧
      request.url.text = "http://fleet.example/?x=1/api/machines-server-token" ∧
      ¬GoesTo url .token request.url := by
  have hread : (Url.parse withQuery.serverUrl).toOption.map (fun url => url.path.chars) =
      some "/".toList := by decide +kernel
  have hsent : (withQuery.server.request .token).toOption.map
      (fun request => (request.url.text, request.url.path.chars)) =
      some ("http://fleet.example/?x=1/api/machines-server-token", "/".toList) := by decide +kernel
  obtain ⟨url, hurl, hpath⟩ := Option.map_eq_some_iff.1 hread
  obtain ⟨request, hrequest, hplace⟩ := Option.map_eq_some_iff.1 hsent
  rw [toOption_eq_some] at hurl hrequest
  obtain ⟨htext, hchars⟩ := Prod.mk.inj hplace
  refine ⟨by decide +kernel, url, request, hurl, hrequest, htext, fun hgoes => ?_⟩
  have hbelow := hgoes.path
  rw [hchars, hpath] at hbelow
  revert hbelow
  decide

end FleetConsole.Server
