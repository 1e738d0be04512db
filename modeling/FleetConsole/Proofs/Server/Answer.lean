import FleetConsole.Proofs.Except
import FleetConsole.Proofs.Text.Utf8
import FleetConsole.Server.Answer

/-!
# Reading answers

A call is answered by a complete success whose body is of the form that the call asks for, and by
nothing else. A body that is UTF-8 is read as the text that it is.
-/

namespace FleetConsole.Server

variable {call : Call} {answer : call.Answer}

theorem readResponse_eq_ok {response : Http.Response} :
    readResponse call response = .ok answer ↔ Http.isSuccess response.status = true ∧
      response.complete = true ∧ readBody response call = .ok answer := by
  rw [readResponse]
  split_ifs with hsuccess hcomplete
  · simp [hsuccess, hcomplete, mapError_eq_ok]
  · simp [hcomplete]
  · simp [hsuccess]

theorem readResult_eq_ok {result : Except Trouble Http.Response} :
    readResult call result = .ok answer ↔ ∃ response, result = .ok response ∧
      Http.isSuccess response.status = true ∧ response.complete = true ∧
      readBody response call = .ok answer := by
  cases result with
  | error trouble => simp [readResult]
  | ok response =>
    rw [readResult, readResponse_eq_ok]
    simp

/-- A body that is UTF-8 is decoded as its text. -/
theorem decode_toUTF8 {α : Type} (read : Nat → Json.Reader α) (s : String) :
    decode read s.toUTF8.toList =
      (Json.Read.document (read Json.Read.depthLimit) s).mapError fun _ => .notDecoded := by
  rw [decode, Text.toList_toUTF8, Text.charsWith_encodeUtf8, String.ofList_toList]

end FleetConsole.Server
