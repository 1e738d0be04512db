import FleetConsole.Http.Wire
import FleetConsole.Proofs.Command.Task
import FleetConsole.Proofs.Server.Address
import FleetConsole.Proofs.Url.Login

/-!
# The session field

A session is told by one field more than the same request has without it. If the name or the value
of that field cannot be sent, nothing is: no request is without the session that it should have, and
none has another field because of it (`session_attached_exactly`). This is so if there is nothing
else by which the operator is known, in the address of the server, and if the field is none of those
that every request has.
-/

namespace FleetConsole

open Text

namespace Http

/-! ### Characters of fields -/

/-- Whether a character does not end a line. -/
def InLine (c : Char) : Prop := c ≠ '\r' ∧ c ≠ '\n'

theorem inLine_of_visible {c : Char} (hseen : 0x20 ≤ c.toNat) : InLine c := by
  refine ⟨?_, ?_⟩ <;> rintro rfl <;> exact absurd hseen (by decide)

theorem visible_toLower {c : Char} (hseen : 0x20 ≤ c.toNat) : 0x20 ≤ c.toLower.toNat := by
  rcases toLower_cases c with hsame | ⟨hsmall, -, -⟩
  · rwa [hsame]
  · omega

theorem visible_of_isTokenChar {c : Char} (htoken : isTokenChar c = true) : 0x20 ≤ c.toNat := by
  rw [isTokenChar, Bool.or_eq_true, List.contains_iff_mem] at htoken
  rcases htoken with halphanum | hmark
  · by_contra hlow
    have hnot := of_low (Nat.le_of_lt (Nat.not_le.1 hlow)) (p := fun c => !c.isAlphanum) (by decide)
    rw [halphanum] at hnot
    cases hnot
  · have hall : "!#$%&'*+-.^_\x60|~".toList.all (fun c => 0x20 ≤ c.toNat) = true := by decide
    exact of_decide_eq_true (List.all_eq_true.1 hall c hmark)

/-- Neither the name nor the value of a field ends its line. -/
theorem inLine_field {s name value : String} (hname : fieldName? s = some name)
    (hvalue : isFieldValue value = true) : ∀ c ∈ (name ++ ": " ++ value).toList, InLine c := by
  intro c hc
  rw [String.toList_append, String.toList_append, List.mem_append, List.mem_append] at hc
  rcases hc with (hc | hc) | hc
  · rw [fieldName?] at hname
    split_ifs at hname with hgood
    cases hname
    rw [Bool.and_eq_true, Bool.and_eq_true, List.all_eq_true] at hgood
    rw [String.toList_ofList, List.mem_map] at hc
    obtain ⟨d, hd, rfl⟩ := hc
    exact inLine_of_visible (visible_toLower (visible_of_isTokenChar (hgood.1.2 d hd)))
  · have hall : ∀ d ∈ ": ".toList, 0x20 ≤ d.toNat := List.all_iff_forall_prop.1 (by decide)
    exact inLine_of_visible (hall c hc)
  · have hchar := List.all_eq_true.1 hvalue c hc
    rw [isValueChar, Bool.or_eq_true, Bool.and_eq_true, decide_eq_true_iff, decide_eq_true_iff]
      at hchar
    rcases hchar with rfl | ⟨hseen, -⟩
    · exact ⟨by decide, by decide⟩
    · exact inLine_of_visible hseen

/-! ### Fields that every request has -/

/-- The names of the fields that are no one else's to set: those that requests have in any case, and
those that say how long a body is. -/
def ownNames : List String :=
  ["host", "accept", "connection", "content-length", "transfer-encoding"]

/-- The fields that a request has in any case. -/
def Request.ownFields (request : Request) : List (String × String) :=
  ({ request with fields := [] } : Request).allFields

namespace Request

variable {request : Request}

theorem allFields_eq (request : Request) :
    request.allFields = request.fields ++ request.ownFields := by
  simp only [ownFields, allFields, List.nil_append, List.append_assoc]

theorem name_of_mem_ownFields {field : String × String} (hfield : field ∈ request.ownFields) :
    field.1 ∈ ownNames := by
  have hnames : request.ownFields.map Prod.fst ⊆ ownNames := by
    rw [ownFields, allFields]
    cases request.method with
    | get => exact (by decide : ["host", "accept", "connection"] ⊆ ownNames)
    | put => exact (by decide : ["host", "accept", "connection", "content-length"] ⊆ ownNames)
  exact hnames (List.mem_map_of_mem hfield)

/-- On its way, a request with one more field has one more line. -/
theorem wireText_insert (request : Request) (name value : String) : ∃ front back,
    ({ request with fields := [] } : Request).wireText = front ++ back ∧
      ({ request with fields := [(name, value)] } : Request).wireText =
        front ++ (name ++ ": " ++ value ++ "\r\n") ++ back := by
  let lines := request.ownFields.map (fun field => field.1 ++ ": " ++ field.2) ++ ["", ""]
  obtain ⟨next, later, hlines⟩ : ∃ next later, lines = next :: later :=
    ⟨_, _, rfl⟩
  let first := request.method.name ++ " " ++ request.target ++ " HTTP/1.1"
  have hjoin : ∀ line, joinWith "\r\n" (line :: lines) =
      line ++ "\r\n" ++ joinWith "\r\n" lines := by
    intro line
    rw [hlines]
    rfl
  refine ⟨first ++ "\r\n", joinWith "\r\n" lines, hjoin first, ?_⟩
  have hlonger : ({ request with fields := [(name, value)] } : Request).wireText =
      joinWith "\r\n" (first :: (name ++ ": " ++ value) :: lines) := rfl
  rw [hlonger]
  change first ++ "\r\n" ++ joinWith "\r\n" ((name ++ ": " ++ value) :: lines) = _
  rw [hjoin]
  simp only [String.append_assoc]

end Request

end Http

namespace Server

/-! ### Requests with and without a session -/

/-- The server as it is known to whoever has no session. -/
def withoutSession (server : Server) : Server := { server with sessionToken := none }

theorem withLogin_of_no_credentials {url : Url} (hnone : url.credentials = []) :
    withLogin url = (url, []) := by
  obtain ⟨scheme, userName, password, host, hasAuthority, port, path, query, fragment⟩ := url
  have hempty : userName = [] ∧ password = none := by
    rw [Url.credentials] at hnone
    split_ifs at hnone with hboth
    · simpa using hboth
    · simp at hnone
  obtain ⟨rfl, rfl⟩ := hempty
  have hname : decoded? [] = some "" := by decide +kernel
  simp [withLogin, login?, hname]

/-- A request is what another one is but for one more field. The field stands there once, and its
line is the only one that is added: it has no line end in it. -/
structure AddsField (bare request : Http.Request) (name value : String) : Prop where
  same : request = { bare with fields := bare.fields ++ [(name, value)] }
  once : request.allFields.filter (fun field => field.1 = name) = [(name, value)]
  wire : ∃ front back, bare.wireText = front ++ back ∧
    request.wireText = front ++ (name ++ ": " ++ value ++ "\r\n") ++ back
  line : ∀ c ∈ (name ++ ": " ++ value).toList, Http.InLine c

/-- What becomes of the session of a server in the requests for a call. -/
structure SessionAttached (server : Server) (call : Call) : Prop where
  /-- Without a token there is no session field, whatever its name would be. -/
  absent : server.sessionToken = none → ∀ request, server.request call = .ok request →
    request.fields = [] ∧
      ∀ field ∈ request.allFields, Http.fieldName? server.sessionField ≠ some field.1
  /-- With a token that can be sent, there is a request whenever there is one without it, and it has
  the session field in addition. -/
  attached : ∀ token name, server.sessionToken = some token →
    Http.fieldName? server.sessionField = some name → Http.isFieldValue (bearer token) = true →
      (∀ bare, server.withoutSession.request call = .ok bare →
        ∃ request, server.request call = .ok request) ∧
      ∀ request, server.request call = .ok request →
        ∃ bare, server.withoutSession.request call = .ok bare ∧
          AddsField bare request name (bearer token)
  /-- With any other token there is none. -/
  refused : ∀ token, server.sessionToken = some token →
    (Http.fieldName? server.sessionField = none ∨ Http.isFieldValue (bearer token) = false) →
      ∀ request, server.request call ≠ .ok request
  /-- If there is no request, nothing reaches the server, and the call fails on the way to it. -/
  unsent : (∀ request, server.request call ≠ .ok request) → ∃ message, ∀ w : World,
    (ask World.exchange server call).run w = (.error (.transport message), w)
  /-- If there is one, it reaches the server, and after it only those to which redirects lead. -/
  sent : ∀ request, server.request call = .ok request → ∀ w : World, ∃ trail,
    ((ask World.exchange server call).run w).2 = { w with trails := w.trails ++ [trail] } ∧
      w.Sends [request] [trail]

section Session

variable {server : Server} {call : Call} {request : Http.Request}

/-- A server whose address has no credentials has none in the addresses of its calls. -/
theorem credentials_of_callUrl
    (hbase : ∀ url, Url.parse server.base = .ok url → url.credentials = []) {url : Url}
    (hurl : callUrl server.base call = .ok url) (hhttp : url.isHttp = true) :
    url.credentials = [] := by
  obtain ⟨⟨cs, hcs⟩, hseen⟩ := visible_path call
  have hat : '@' ∉ cs := by
    intro hmem
    have hpath : '@' ∈ call.path.toList := hcs ▸ List.mem_cons_of_mem _ hmem
    rw [toList_path] at hpath
    rcases Url.mem_slashed hpath with hslash | ⟨name, hname, hc⟩
    · exact absurd hslash (by decide)
    · exact absurd (plain_names call name hname '@' hc) (by decide)
  rcases Url.credentials_below hcs hat hseen (of_callUrl_eq_ok hurl).1 hhttp with
    hnone | ⟨base, hread, hsame⟩
  · exact hnone
  · rw [hsame, hbase base hread]

/-- The requests of such a server have no credentials to move to a field. -/
theorem withLogin_of_request_eq_ok
    (hbase : ∀ url, Url.parse server.base = .ok url → url.credentials = [])
    (hrequest : server.request call = .ok request) : ∃ session url,
      server.sessionName = .ok session ∧ callUrl server.base call = .ok url ∧
        withLogin url = (url, []) ∧ request = requestTo session call url ∧
          isSendable request.url = true := by
  obtain ⟨session, url, hsession, -, hurl, rfl, hsendable⟩ := of_request_eq_ok hrequest
  have hhttp : url.isHttp = true := by
    rw [isSendable, Bool.and_eq_true, Bool.and_eq_true] at hsendable
    rw [← isHttp_withLogin, ← isHttp_withParameters call.parameters]
    exact hsendable.1.1
  exact ⟨session, url, hsession, hurl,
    withLogin_of_no_credentials (credentials_of_callUrl hbase hurl hhttp), rfl, hsendable⟩

/-- A field that is none of those that every request has stands once in a request with no other. -/
theorem filter_allFields {name value : String} (hfields : request.fields = [(name, value)])
    (hown : name ∉ Http.ownNames) :
    request.allFields.filter (fun field => field.1 = name) = [(name, value)] := by
  have hnone : request.ownFields.filter (fun field => field.1 = name) = [] := by
    refine List.filter_eq_nil_iff.2 fun field hfield hname => hown ?_
    rw [← of_decide_eq_true hname]
    exact Http.Request.name_of_mem_ownFields hfield
  rw [Http.Request.allFields_eq, List.filter_append, hnone, hfields, List.append_nil]
  simp

/-- The name of the session field is the only thing that can be wrong with it before its value. -/
theorem sessionName_eq_ok_some {token name : String} (htoken : server.sessionToken = some token)
    (hname : Http.fieldName? server.sessionField = some name) :
    server.sessionName = .ok (some (name, token)) := by
  rw [sessionName, htoken]
  simp only [hname]

theorem sessionName_eq_ok {session : Option (String × String)}
    (hsession : server.sessionName = .ok session) :
    (server.sessionToken = none ∧ session = none) ∨ ∃ token name,
      server.sessionToken = some token ∧ Http.fieldName? server.sessionField = some name ∧
        session = some (name, token) := by
  rw [sessionName] at hsession
  split at hsession
  · rename_i hnone
    cases hsession
    exact .inl ⟨hnone, rfl⟩
  · rename_i token htoken
    split at hsession
    · cases hsession
    · rename_i name hname
      cases hsession
      exact .inr ⟨token, name, htoken, hname, rfl⟩

/-- Without a session there is a request exactly for the addresses that can be sent to. -/
theorem request_withoutSession {url : Url} (hurl : callUrl server.base call = .ok url)
    (hsendable : isSendable (requestTo none call url).url = true) :
    server.withoutSession.request call = .ok (requestTo none call url) :=
  request_eq_ok_of rfl (fun _ _ hnone => by cases hnone) hurl hsendable

theorem addsField {name token : String} {url : Url}
    (hname : Http.fieldName? server.sessionField = some name)
    (hvalue : Http.isFieldValue (bearer token) = true) (hown : name ∉ Http.ownNames)
    (hlogin : withLogin url = (url, [])) :
    AddsField (requestTo none call url) (requestTo (some (name, token)) call url) name
      (bearer token) where
  same := by simp [requestTo, sessionFields]
  once := filter_allFields (by rw [requestTo, hlogin]; rfl) hown
  wire := by
    have hwire := Http.Request.wireText_insert (requestTo none call url) name (bearer token)
    simpa only [requestTo, hlogin, sessionFields, List.nil_append] using hwire
  line := Http.inLine_field hname hvalue

end Session

/-- The session of a server goes with every request for a call, exactly as it is, or there is no
request. -/
theorem session_attached_exactly {server : Server}
    (hbase : ∀ url, Url.parse server.base = .ok url → url.credentials = [])
    (hown : ∀ name, Http.fieldName? server.sessionField = some name → name ∉ Http.ownNames)
    (call : Call) : SessionAttached server call where
  absent hnone request hrequest := by
    obtain ⟨session, url, hsession, -, hlogin, rfl, -⟩ := withLogin_of_request_eq_ok hbase hrequest
    have hempty : (requestTo session call url).fields = [] := by
      rw [requestTo, hlogin]
      rcases sessionName_eq_ok hsession with ⟨-, rfl⟩ | ⟨token, name, htoken, -⟩
      · rfl
      · rw [hnone] at htoken
        cases htoken
    refine ⟨hempty, fun field hfield hname => hown _ hname ?_⟩
    rw [Http.Request.allFields_eq, hempty, List.nil_append] at hfield
    exact Http.Request.name_of_mem_ownFields hfield
  attached token name htoken hname hvalue := by
    have hsession := sessionName_eq_ok_some htoken hname
    constructor
    · intro bare hbare
      obtain ⟨session, url, hnone, -, hurl, rfl, hsendable⟩ := of_request_eq_ok hbare
      refine ⟨_, request_eq_ok_of hsession ?_ hurl hsendable⟩
      rintro _ _ ⟨⟩
      exact hvalue
    · intro request hrequest
      obtain ⟨session, url, hfound, hurl, hlogin, rfl, hsendable⟩ :=
        withLogin_of_request_eq_ok hbase hrequest
      cases hsession.symm.trans hfound
      exact ⟨_, request_withoutSession hurl hsendable, addsField hname hvalue (hown name hname)
        hlogin⟩
  refused token htoken hbad request hrequest := by
    obtain ⟨session, url, hsession, htellable, -⟩ := of_request_eq_ok hrequest
    rcases sessionName_eq_ok hsession with ⟨hnone, -⟩ | ⟨found, name, hfound, hname, rfl⟩
    · rw [hnone] at htoken
      cases htoken
    · cases htoken.symm.trans hfound
      rcases hbad with hbad | hbad
      · rw [hname] at hbad
        cases hbad
      · rw [htellable name token rfl] at hbad
        cases hbad
  unsent hnone := by
    cases hrequest : server.request call with
    | ok request => exact absurd hrequest (hnone request)
    | error trouble =>
      refine ⟨trouble.text, fun w => ?_⟩
      rw [ask, hrequest]
      rfl
  sent request hrequest w := by
    rw [World.run_ask, requests_of_eq_ok hrequest]
    exact ⟨(w.outcome request).trail, rfl, w.sends_single request⟩

/-- A server with a session whose token has a tab, a colon and a letter that is not ASCII in it, and
an at sign in the path of its address. -/
def withSession : Server :=
  ⟨"http://fleet.example/team@1", "X-Session-Token", some "a:\tbé"⟩

theorem awkward_session_attached :
    (∀ url, Url.parse withSession.base = .ok url → url.credentials = []) ∧
    (∀ name, Http.fieldName? withSession.sessionField = some name → name ∉ Http.ownNames) ∧
    SessionAttached withSession .regenerate ∧
    ∃ request, withSession.request .regenerate = .ok request ∧
      request.allFields.filter (fun field => field.1 = "x-session-token") =
        [("x-session-token", "Bearer a:\tbé")] := by
  have hcredentials : (Url.parse withSession.base).toOption.map Url.credentials = some [] := by
    decide +kernel
  have hbase : ∀ url, Url.parse withSession.base = .ok url → url.credentials = [] := by
    intro url hurl
    rw [hurl] at hcredentials
    exact Option.some.inj hcredentials
  have hname : Http.fieldName? withSession.sessionField = some "x-session-token" := by decide
  have hown : ∀ name, Http.fieldName? withSession.sessionField = some name →
      name ∉ Http.ownNames := by
    intro name hfound
    cases hname.symm.trans hfound
    decide
  have hattached := session_attached_exactly hbase hown .regenerate
  have hbare : (withSession.withoutSession.request .regenerate).toOption.isSome = true := by
    decide +kernel
  obtain ⟨bare, hbare⟩ := Option.isSome_iff_exists.1 hbare
  obtain ⟨hexists, hadds⟩ := hattached.attached "a:\tbé" "x-session-token" rfl hname (by decide)
  obtain ⟨request, hrequest⟩ := hexists bare (toOption_eq_some.1 hbare)
  obtain ⟨_, -, honce⟩ := hadds request hrequest
  exact ⟨hbase, hown, hattached, request, hrequest, honce.once⟩

end Server

end FleetConsole
