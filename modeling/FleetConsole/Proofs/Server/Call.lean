import FleetConsole.Proofs.Command.Task
import FleetConsole.Proofs.Server.Request

/-!
# The request for a call

A request goes to the address of the server with the place of its call, in the way of its call.
Calls for the same place have requests under the same conditions, so whoever could ask for the
token can ask for another one (`regenerate_of_token`).
-/

namespace FleetConsole.Server

open Text

/-- The request for a call. Credentials in the address of the server do not stay there. -/
structure IsRequest (server : Server) (call : Call) (request : Http.Request) : Prop where
  built : server.request call = .ok request
  method : request.method = call.method
  address : ∃ url, Url.parse (trimEnd '/' server.base ++ call.path) = .ok url ∧
    request.url = (withLogin url).1.withParameters call.parameters

section Request

variable {server : Server} {call : Call} {request : Http.Request}

theorem isRequest (hrequest : server.request call = .ok request) :
    IsRequest server call request := by
  obtain ⟨session, url, -, -, hurl, rfl, -⟩ := of_request_eq_ok hrequest
  exact ⟨hrequest, rfl, url, (of_callUrl_eq_ok hurl).1, rfl⟩

/-- If there is a request for each call, these are the requests, in the order of the calls. -/
theorem forall₂_requests {calls : List Call}
    (hbuilt : ∀ call ∈ calls, ∃ request, server.request call = .ok request) :
    List.Forall₂ (IsRequest server) calls (server.requests calls) := by
  induction calls with
  | nil => exact .nil
  | cons call calls ih =>
    rw [List.forall_mem_cons] at hbuilt
    obtain ⟨request, hrequest⟩ := hbuilt.1
    have hcons : server.requests (call :: calls) = request :: server.requests calls := by
      rw [← List.singleton_append, requests_append, requests_of_eq_ok hrequest]
      rfl
    rw [hcons]
    exact .cons (isRequest hrequest) (ih hbuilt.2)

theorem regenerate_of_token (hrequest : server.request .token = .ok request) :
    ∃ other, server.request .regenerate = .ok other := by
  obtain ⟨session, url, hsession, htellable, hurl, rfl, hsendable⟩ := of_request_eq_ok hrequest
  have hplace : callUrl server.base .regenerate = .ok url := by
    rw [← hurl, callUrl, callUrl, Call.path, Call.path]
  refine ⟨_, request_eq_ok_of hsession htellable hplace ?_⟩
  rw [requestTo] at hsendable ⊢
  exact hsendable

end Request

end FleetConsole.Server
