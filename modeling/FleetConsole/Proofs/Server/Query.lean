import FleetConsole.Proofs.Server.Request
import FleetConsole.Proofs.Url.Form

/-!
# What a query says to the server

The parameters of a query are read back as they are, each under its name, whatever the filter text
has in it, so the query can be told from them (`queryParameters_injective`). They stand behind what
the address of the server has in its own query, and the place of the machines goes there too. So a
server gets the parameters and nothing else exactly if its address leaves nothing in the query.
-/

namespace FleetConsole.Server

open Text Url

/-! ### Parameters -/

/-- Each parameter is found under its name, and one that is absent is not found. -/
theorem lookup_queryParameters (query : Query) :
    (Call.queryParameters query).lookup "start" = some (natText query.offset) ∧
      (Call.queryParameters query).lookup "limit" = some (natText query.limit) ∧
      (Call.queryParameters query).lookup "text" = query.text ∧
      (Call.queryParameters query).lookup "authorized" =
        query.authorized.map fun b => if b then "true" else "false" := by
  obtain ⟨offset, limit, text, authorized⟩ := query
  cases text <;> cases authorized <;> exact ⟨rfl, rfl, rfl, rfl⟩

theorem queryParameters_injective {query other : Query}
    (hsame : Call.queryParameters query = Call.queryParameters other) : query = other := by
  obtain ⟨hoffset, hlimit, htext, hauthorized⟩ := lookup_queryParameters query
  obtain ⟨hoffset', hlimit', htext', hauthorized'⟩ := lookup_queryParameters other
  rw [hsame] at hoffset hlimit htext hauthorized
  have hnames : Function.Injective fun b : Bool => if b then "true" else "false" := by
    intro a b
    cases a <;> cases b <;> decide
  obtain ⟨offset, limit, text, authorized⟩ := query
  obtain ⟨offset', limit', text', authorized'⟩ := other
  cases natText_injective (Option.some.inj (hoffset.symm.trans hoffset'))
  cases natText_injective (Option.some.inj (hlimit.symm.trans hlimit'))
  cases htext.symm.trans htext'
  cases Option.map_injective hnames (hauthorized.symm.trans hauthorized')
  rfl

/-! ### Queries of addresses -/

/-- The names and values in the query of an address. -/
def told (url : Url) : List (String × String) := Form.decode (url.query.getD [])

/-- Parameters are told after those that the address has, and these are told as before. -/
theorem told_withParameters (url : Url) (parameters : List (String × String)) :
    told (url.withParameters parameters) = told url ++ parameters := by
  rw [told, told, Url.withParameters]
  by_cases hempty : parameters = []
  · simp [hempty]
  · rw [if_neg (by simpa using hempty)]
    rcases url.query with _ | _ | ⟨c, cs⟩
    · exact Form.decode_encode parameters
    · exact Form.decode_encode parameters
    · exact (Form.decode_append (c :: cs) _).trans
        (congrArg (Form.decode (c :: cs) ++ ·) (Form.decode_encode parameters))

/-- A request tells what its address tells, and then the parameters of its call. -/
theorem told_requestTo (session : Option (String × String)) (call : Call) (url : Url) :
    told (requestTo session call url).url = told url ++ call.parameters := by
  have hquery : (withLogin url).1.query = url.query := by
    rw [withLogin]
    split <;> rfl
  rw [requestTo, told_withParameters, told, hquery]
  rfl

/-- The parameters of a query reach the server in their order, each with its own value, and from
them the query is known. They are all that the server is told exactly if the address of the machines
has no names and values in its query. -/
theorem list_told_iff {server : Server} {query : Query} {request : Http.Request}
    (hrequest : server.request (.list query) = .ok request) :
    ∃ place, Url.parse (trimEnd '/' server.base ++ Call.machinesPath) = .ok place ∧
      told request.url = told place ++ Call.queryParameters query ∧
      (told request.url = Call.queryParameters query ↔ told place = []) ∧
      ∀ other sent, server.request (.list other) = .ok sent →
        sent.url.query = request.url.query → other = query := by
  have htold : ∀ other sent, server.request (.list other) = .ok sent → ∃ place,
      Url.parse (trimEnd '/' server.base ++ Call.machinesPath) = .ok place ∧
        told sent.url = told place ++ Call.queryParameters other := by
    intro other sent hsent
    obtain ⟨session, place, -, -, hplace, rfl, -⟩ := of_request_eq_ok hsent
    exact ⟨place, (of_callUrl_eq_ok hplace).1, told_requestTo session _ place⟩
  obtain ⟨place, hplace, hquery⟩ := htold query request hrequest
  refine ⟨place, hplace, hquery, ?_, fun other sent hsent hsame => ?_⟩
  · rw [hquery]
    exact List.append_left_eq_self
  · obtain ⟨another, hanother, hother⟩ := htold other sent hsent
    cases hplace.symm.trans hanother
    rw [told, hsame, ← told, hquery] at hother
    exact queryParameters_injective (List.append_cancel_left hother).symm

/-- An address on one server. -/
def onFleet (path : List String) (query : String) : Url where
  scheme := "http".toList
  host := some (.domain "fleet.example".toList)
  hasAuthority := true
  path := .segments (path.map String.toList)
  query := some query.toList

/-- A query whose filter text has every character that means something in a form. -/
def awkward : Query := ⟨20, 10, some "a&text=b+c%26 #\"\né", some false⟩

theorem awkward_query_told : ∃ request,
    (⟨"http://fleet.example/", "authorization", none⟩ : Server).request (.list awkward) =
      .ok request ∧
    request.url = onFleet ["api", "machines"]
      "start=20&limit=10&text=a%26text%3Db%2Bc%2526+%23%22%0A%C3%A9&authorized=false" ∧
    told request.url = [("start", "20"), ("limit", "10"), ("text", "a&text=b+c%26 #\"\né"),
      ("authorized", "false")] := by
  have hrequest : (⟨"http://fleet.example/", "authorization", none⟩ : Server).request
      (.list awkward) = .ok ⟨.get, onFleet ["api", "machines"]
        "start=20&limit=10&text=a%26text%3Db%2Bc%2526+%23%22%0A%C3%A9&authorized=false", []⟩ := by
    decide +kernel
  have hparameters : Call.queryParameters awkward = [("start", "20"), ("limit", "10"),
      ("text", "a&text=b+c%26 #\"\né"), ("authorized", "false")] := by decide +kernel
  obtain ⟨place, hplace, -, htold, -⟩ := list_told_iff hrequest
  have hnone : (Url.parse (trimEnd '/' "http://fleet.example/" ++ Call.machinesPath)).toOption.map
      told = some [] := by decide +kernel
  rw [hplace] at hnone
  exact ⟨_, hrequest, rfl, (htold.2 (Option.some.inj hnone)).trans hparameters⟩

/-- A server whose address has a query gets the place of the machines as the end of it. -/
theorem place_told_in_query : ∃ request,
    (⟨"http://fleet.example/x?y=1&z", "authorization", none⟩ : Server).request
      (.list ⟨0, 10, none, some true⟩) = .ok request ∧
    told request.url ≠ Call.queryParameters ⟨0, 10, none, some true⟩ ∧
    told request.url = [("y", "1"), ("z/api/machines", ""), ("start", "0"), ("limit", "10"),
      ("authorized", "true")] := by
  have hrequest : (⟨"http://fleet.example/x?y=1&z", "authorization", none⟩ : Server).request
      (.list ⟨0, 10, none, some true⟩) = .ok ⟨.get, onFleet ["x"]
        "y=1&z/api/machines&start=0&limit=10&authorized=true", []⟩ := by decide +kernel
  exact ⟨_, hrequest, by decide +kernel, by decide +kernel⟩

end FleetConsole.Server
