import FleetConsole.Proofs.Url.Append
import FleetConsole.Server.Basic

/-!
# The requests to a server

A request is the address of its call with the parameters of the call, and the fields that make the
operator known. The address of a dump is that of the machines with two more names, so whoever can
ask for machines can ask for a dump of one of them: the address is longer, but not by as much as the
parameters of a query are. For the same reason the two requests differ.
-/

namespace FleetConsole.Server

open Text

/-- An address as requests go to it, and the field for the credentials that were in it. -/
def withLogin (url : Url) : Url × List (String × String) :=
  match login? url with
  | some (name, password) => (url.withoutCredentials, [loginField name password])
  | none => (url, [])

/-- The field for a session. -/
def sessionFields : Option (String × String) → List (String × String)
  | none => []
  | some (name, token) => [(name, bearer token)]

/-- Whether a session can be told to the server. -/
def Tellable (session : Option (String × String)) : Prop :=
  ∀ name token, session = some (name, token) → Http.isFieldValue (bearer token) = true

theorem bareRequest_eq (base : String) (call : Call) :
    bareRequest base call = (callUrl base call).map fun url =>
      ⟨call.method, (withLogin url).1.withParameters call.parameters, (withLogin url).2⟩ := by
  rw [bareRequest]
  cases callUrl base call with
  | error trouble => rfl
  | ok url =>
    simp only [withLogin, bind, Except.bind, Except.map]
    cases login? url <;> rfl

/-- The request to the address of a call. -/
def requestTo (session : Option (String × String)) (call : Call) (url : Url) : Http.Request :=
  ⟨call.method, (withLogin url).1.withParameters call.parameters,
    (withLogin url).2 ++ sessionFields session⟩

section Request

variable {server : Server} {call : Call} {request : Http.Request}
  {session : Option (String × String)} {url : Url}

theorem request_eq_ok_of (hsession : server.sessionName = .ok session)
    (htellable : Tellable session)
    (hurl : callUrl server.base call = .ok url)
    (hsendable : isSendable (requestTo session call url).url = true) :
    server.request call = .ok (requestTo session call url) := by
  simp only [requestTo] at hsendable
  cases session with
  | none =>
    simp [Server.request, bareRequest_eq, hsession, hurl, bind, Except.bind, Except.map, pure,
      Except.pure, hsendable, requestTo, sessionFields]
  | some session =>
    have hvalue := htellable session.1 session.2 rfl
    simp [Server.request, bareRequest_eq, hsession, hurl, bind, Except.bind, Except.map, pure,
      Except.pure, hsendable, requestTo, sessionFields, hvalue]

theorem of_request_eq_ok (hrequest : server.request call = .ok request) :
    ∃ session url, server.sessionName = .ok session ∧ Tellable session ∧
      callUrl server.base call = .ok url ∧ request = requestTo session call url ∧
        isSendable request.url = true := by
  obtain ⟨session, hsession, hrequest⟩ := bind_eq_ok.1 hrequest
  obtain ⟨bare, hbare, hrequest⟩ := bind_eq_ok.1 hrequest
  rw [bareRequest_eq] at hbare
  obtain ⟨url, hurl, rfl⟩ := map_eq_ok.1 hbare
  refine ⟨session, url, hsession, ?_, hurl, ?_⟩
  · rintro name token rfl
    by_contra hvalue
    simp only [hvalue] at hrequest
    cases hrequest
  · have hbuilt : (if isSendable (requestTo session call url).url then
        Except.ok (requestTo session call url)
        else .error (Trouble.notBuiltFor (requestTo session call url).url)) = .ok request := by
      cases session with
      | none =>
        rw [requestTo, sessionFields, List.append_nil]
        exact hrequest
      | some session =>
        simp only at hrequest
        split_ifs at hrequest with hvalue
        · exact hrequest
        · cases hrequest
    split_ifs at hbuilt with hsendable
    cases hbuilt
    exact ⟨rfl, hsendable⟩

end Request

/-! ### How long parameters are -/

theorem length_encodePair (pair : String × String) : (Url.Form.encodePair pair).length =
    (Url.Form.encodeText pair.1).length + 1 + (Url.Form.encodeText pair.2).length := by
  rw [Url.Form.encodePair, List.length_append, List.length_cons]
  omega

theorem length_encodeText_natText_pos (n : Nat) : 0 < (Url.Form.encodeText (natText n)).length := by
  rw [Url.Form.encodeText, natText, String.toList_ofList]
  cases hdigits : digits n with
  | nil => exact absurd hdigits Nat.toDigits_ne_nil
  | cons c cs =>
    have hdigit : c.isDigit = true := isDigit_of_mem_digits (hdigits ▸ List.mem_cons_self)
    have hplain : Url.Form.isPlain c = true := by simp [Url.Form.isPlain, Char.isAlphanum, hdigit]
    simp [Url.Form.encodeChar, hplain]

theorem queryParameters_ne_nil (query : Query) : Call.queryParameters query ≠ [] := by
  simp [Call.queryParameters]

/-- The parameters of a query for one of the views. -/
theorem length_encode_queryParameters {query : Query} (hview : query.authorized.isSome = true) :
    31 ≤ (Url.Form.encode (Call.queryParameters query)).length := by
  obtain ⟨offset, limit, text, authorized⟩ := query
  obtain ⟨authorized, rfl⟩ := Option.isSome_iff_exists.1 hview
  have hoffset := length_encodeText_natText_pos offset
  have hlimit := length_encodeText_natText_pos limit
  have hstart : (Url.Form.encodeText "start").length = 5 := rfl
  have hlimitName : (Url.Form.encodeText "limit").length = 5 := rfl
  have hauthorized : (Url.Form.encodeText "authorized").length = 10 := rfl
  have hvalue : 4 ≤ (Url.Form.encodeText (if authorized then "true" else "false")).length := by
    cases authorized <;> decide
  cases text with
  | none =>
    simp only [Call.queryParameters, Option.map_none, Option.map_some, Option.toList_none,
      Option.toList_some, List.append_nil, List.cons_append, List.nil_append, Url.Form.encode,
      List.length_append, List.length_cons, length_encodePair]
    omega
  | some text =>
    simp only [Call.queryParameters, Option.map_some, Option.toList_some, List.cons_append,
      List.nil_append, Url.Form.encode, List.length_append, List.length_cons, length_encodePair]
    omega

/-! ### The places of calls -/

/-- The names that the address of a dump has behind that of the machines. -/
def dumpNames (id : Int) : List (List Char) := [(intText id).toList, "dump".toList]

/-- The names in the path of a call. -/
def Call.names : Call → List (List Char)
  | .list _ => ["api".toList, "machines".toList]
  | .token | .regenerate => ["api".toList, "machines-server-token".toList]
  | .dump id => "api".toList :: "machines".toList :: dumpNames id

theorem toList_path (call : Call) : call.path.toList = Url.slashed call.names := by
  cases call with
  | list _ | token | regenerate =>
    rw [Call.path, Call.names]
    decide
  | dump id =>
    simp only [Call.path, Call.names, String.toList_append, dumpNames, Url.slashed_cons,
      List.append_assoc]
    rfl

theorem plain_names (call : Call) : ∀ other ∈ call.names, ∀ c ∈ other, Url.IsPlain c := by
  cases call with
  | list _ | token | regenerate =>
    simp only [Call.names, List.forall_mem_cons]
    exact ⟨Url.isPlain_of_all (by decide), Url.isPlain_of_all (by decide), by simp⟩
  | dump id =>
    simp only [Call.names, dumpNames, List.forall_mem_cons]
    refine ⟨Url.isPlain_of_all (by decide), Url.isPlain_of_all (by decide), fun c hc => ?_,
      Url.isPlain_of_all (by decide), by simp⟩
    rcases mem_intText hc with rfl | hdigit
    · exact .inr (.inr rfl)
    · exact .inr (.inl hdigit)

/-! ### From machines to a dump -/

/-- The numbers that identify machines. -/
def IsMachineId (id : Int) : Prop := -(Nat.pow 2 63 : Int) ≤ id ∧ id < Nat.pow 2 63

instance (id : Int) : Decidable (IsMachineId id) := inferInstanceAs (Decidable (_ ∧ _))

theorem IsMachineId.natAbs_lt {id : Int} (hid : IsMachineId id) : id.natAbs < Nat.pow 10 19 := by
  have hleast : (Nat.pow 2 63 : Int) = 9223372036854775808 := rfl
  have hwidth : Nat.pow 10 19 = 10000000000000000000 := rfl
  rw [IsMachineId, hleast] at hid
  omega

theorem length_dumpNames {id : Int} (hid : IsMachineId id) :
    (Url.slashed (dumpNames id)).length ≤ 26 := by
  have hdump : "dump".toList.length = 4 := rfl
  have hdigits : (natText id.natAbs).toList.length ≤ 19 :=
    length_natText_le (by decide) hid.natAbs_lt
  have hid : (intText id).toList.length ≤ 20 := by
    rw [intText]
    split_ifs
    · have hsign : "-".toList.length = 1 := rfl
      rw [String.toList_append, List.length_append]
      omega
    · omega
  rw [dumpNames, Url.slashed_cons, Url.slashed_singleton, List.length_append, List.length_cons,
    List.length_cons]
  omega

section Extend

variable {url : Url} (names : List (List Char))

theorem withLogin_extend : withLogin (url.extend names) =
    ((withLogin url).1.extend names, (withLogin url).2) := by
  have hlogin : login? (url.extend names) = login? url := by
    simp only [login?, Url.userName_extend, Url.password_extend]
  rw [withLogin, withLogin, hlogin]
  cases login? url with
  | none => rfl
  | some login => simp only [Url.withoutCredentials_extend]

theorem onHost_withLogin (honHost : url.OnHost) : (withLogin url).1.OnHost := by
  rw [withLogin]
  split
  · exact ⟨honHost.authority, honHost.segments⟩
  · exact honHost

theorem isHttp_withLogin : (withLogin url).1.isHttp = url.isHttp := by
  rw [withLogin]
  split <;> rfl

theorem isHttp_withParameters (parameters : List (String × String)) :
    (url.withParameters parameters).isHttp = url.isHttp := by
  rw [Url.withParameters]
  split <;> rfl

theorem host_withParameters (parameters : List (String × String)) :
    (url.withParameters parameters).host = url.host := by
  rw [Url.withParameters]
  split <;> rfl

end Extend

theorem of_callUrl_eq_ok {base : String} {call : Call} {url : Url}
    (hurl : callUrl base call = .ok url) :
    Url.parse (urlText base call.path) = .ok url ∧ url.host.isSome = true := by
  rw [callUrl] at hurl
  split at hurl
  · cases hurl
  · rename_i found hfound
    split_ifs at hurl with hhost
    cases hurl
    exact ⟨hfound, hhost⟩

/-- Where machines can be asked for, the dump of any machine can be. -/
theorem callUrl_dump {base : String} {query : Query} {url : Url}
    (hurl : callUrl base (.list query) = .ok url) (hhttp : url.isHttp = true) (id : Int) :
    callUrl base (.dump id) = .ok (url.extend (dumpNames id)) ∧ url.OnHost := by
  obtain ⟨hread, hhost⟩ := of_callUrl_eq_ok hurl
  obtain ⟨hextended, honHost⟩ := Url.parse_extend (by decide) (plain_names (.dump id))
    (toList_path (.list query)) (toList_path (.dump id)) hread hhttp
  refine ⟨?_, honHost⟩
  rw [callUrl, urlText, hextended]
  simp [hhost]

section Dump

variable {server : Server} {query : Query} {listing : Http.Request} {id : Int}

/-- Whoever has asked for machines can ask for a dump, by an address below that of the machines. -/
theorem dump_of_listing (hlisting : server.request (.list query) = .ok listing)
    (hview : query.authorized.isSome = true) (hid : IsMachineId id) :
    ∃ dump, server.request (.dump id) = .ok dump ∧ dump.method = .get ∧
      dump.fields = listing.fields ∧ ∃ place : Url,
        listing.url = place.withParameters (Call.queryParameters query) ∧
        dump.url.chars = place.chars ++ Url.slashed (dumpNames id) := by
  obtain ⟨session, url, hsession, htellable, hurl, rfl, hsendable⟩ := of_request_eq_ok hlisting
  simp only [requestTo, Call.parameters, isSendable, Bool.and_eq_true, isHttp_withParameters,
    host_withParameters] at hsendable
  obtain ⟨⟨hhttp, hhost⟩, hlength⟩ := hsendable
  have hlength := of_decide_eq_true hlength
  rw [isHttp_withLogin] at hhttp
  obtain ⟨hdump, honHost⟩ := callUrl_dump hurl hhttp id
  have hplace : (requestTo session (.dump id) (url.extend (dumpNames id))).url =
      (withLogin url).1.extend (dumpNames id) := by
    rw [requestTo, withLogin_extend]
    rfl
  -- The parameters have at least 31 characters and the names at most 26, so the address is not too
  -- long if that of the machines is not.
  have hchars := Url.chars_extend (dumpNames id) (onHost_withLogin honHost)
  have hparameters := length_encode_queryParameters hview
  have hlonger := Url.length_withParameters (withLogin url).1 (queryParameters_ne_nil query)
  have hshort := length_dumpNames hid
  refine ⟨_, request_eq_ok_of hsession htellable hdump ?_, rfl, ?_, (withLogin url).1, rfl, ?_⟩
  · rw [hplace, isSendable, Url.isHttp_extend, Url.host_extend, isHttp_withLogin, hhttp, hhost,
      hchars, List.length_append]
    simp only [Bool.and_self, Bool.true_and, decide_eq_true_iff]
    omega
  · rw [requestTo, requestTo, withLogin_extend]
  · rw [hplace, hchars]

/-- The request for a dump is none of those for machines. -/
theorem dump_ne_listing {dump : Http.Request} (hdump : server.request (.dump id) = .ok dump)
    (hlisting : server.request (.list query) = .ok listing)
    (hview : query.authorized.isSome = true) (hid : IsMachineId id) :
    dump ≠ listing := by
  rintro rfl
  obtain ⟨other, hother, -, -, place, hplace, hchars⟩ := dump_of_listing hlisting hview hid
  rw [hdump] at hother
  cases hother
  have hparameters := length_encode_queryParameters hview
  have hlonger := Url.length_withParameters place (queryParameters_ne_nil query)
  have hshort := length_dumpNames hid
  rw [← hplace, hchars, List.length_append] at hlonger
  omega

/-- A request for the dump of a machine: its place is put behind the address of the server, and
credentials in the address do not stay there. -/
structure IsDumpRequest (server : Server) (id : Int) (request : Http.Request) : Prop where
  built : server.request (.dump id) = .ok request
  method : request.method = .get
  address : ∃ url,
    Url.parse (trimEnd '/' server.base ++ ("/api/machines/" ++ intText id ++ "/dump")) = .ok url ∧
      request.url = (withLogin url).1

theorem isDumpRequest {request : Http.Request}
    (hrequest : server.request (.dump id) = .ok request) :
    IsDumpRequest server id request := by
  obtain ⟨session, url, -, -, hurl, rfl, -⟩ := of_request_eq_ok hrequest
  exact ⟨hrequest, rfl, url, (of_callUrl_eq_ok hurl).1, rfl⟩

end Dump

end FleetConsole.Server
