import FleetConsole.Notification
import FleetConsole.Proofs.Json.Record
import FleetConsole.Proofs.Text.Utf8
import FleetConsole.Server.Answer

/-!
# The reason for a refusal

What the operator is shown of a response that is no success is the message in its body, or else the
body, or else what the status means. A body that is shown is trimmed and not empty, and every status
means something, so only a message can leave the operator without anything to read: it is passed on
as it is, blank or not (`reason_readable_iff`).
-/

namespace FleetConsole.Server

open Text Json Json.Read

/-! ### What a status means -/

theorem isBlankText_append (s t : String) :
    isBlankText (s ++ t) = (isBlankText s && isBlankText t) := by
  rw [isBlankText, String.toList_append, List.all_append]
  rfl

/-- Every status has a meaning that can be read, be it only the number. -/
theorem statusText_readable (status : Nat) :
    isBlankText ((Http.reason? status).getD ("request failed with status " ++ natText status)) =
      false := by
  cases hreason : Http.reason? status with
  | none =>
    have hfront : isBlankText "request failed with status " = false := by decide
    rw [Option.getD_none, isBlankText_append, hfront, Bool.false_and]
  | some phrase =>
    obtain ⟨entry, hentry, rfl⟩ := Option.map_eq_some_iff.1 hreason
    have hall : Http.reasons.all (fun entry => !isBlankText entry.2) = true := by decide +kernel
    simpa using List.all_eq_true.1 hall entry (List.mem_of_find?_eq_some hentry)

/-! ### What a body says -/

/-- A text is the record of a message. -/
def Records (body message : String) : Prop :=
  document (soleText "message" depthLimit) body = .ok message

theorem not_records_empty (message : String) : ¬Records "" message := by
  intro hrecord
  cases hrecord

section Message

variable {body message : String}

theorem bodyMessage?_of_records (hrecord : Records body message) :
    bodyMessage? body = some message := by
  rw [Records] at hrecord
  rw [bodyMessage?, hrecord]

/-- What is shown of a body that is no record can be read. -/
theorem readable_of_bodyMessage? (hmessage : bodyMessage? body = some message)
    (hnone : ∀ said, ¬Records body said) : isBlankText message = false := by
  rw [bodyMessage?] at hmessage
  split at hmessage
  · rename_i said hsaid
    exact absurd hsaid (hnone said)
  · simp only at hmessage
    split_ifs at hmessage with hempty
    cases hmessage
    have htrimmed : Trimmed (trim body).toList := by
      rw [trim, String.toList_ofList]
      exact trimmed_trimChars body.toList
    exact htrimmed.not_blank fun hnil => hempty (by rw [hnil]; rfl)

theorem failureMessage_of_records (status : Nat) (hrecord : Records body message) :
    failureMessage status body = message := by
  rw [failureMessage, bodyMessage?_of_records hrecord]

theorem readable_of_not_records (status : Nat) (hnone : ∀ said, ¬Records body said) :
    isBlankText (failureMessage status body) = false := by
  rw [failureMessage]
  cases hmessage : bodyMessage? body with
  | none => exact statusText_readable status
  | some message => exact readable_of_bodyMessage? hmessage hnone

end Message

/-- Every message can be told: the object with the message as its only field is the record of it, in
either layout. -/
theorem records_written (layout : Layout) (message : String) :
    Records (String.ofList (write layout (.object [("message", .text message)]))) message := by
  let field (name : String) (seen : Option String) : Reader (Option String) :=
    if name = "message" then once seen text some else ignored seen
  have htakes : Takes field layout.inner none [("message", .text message)] (some message) := by
    refine .cons (fun tail hends => ?_) (.nil _)
    exact once_written (reads_text _ message) ignoresSpace_text some tail hends
  obtain ⟨body, hbody, hmembers⟩ := members_object htakes []
  refine document_ofList ?_
  rw [soleText, record_object (by rw [hbody]; exact skipSpace_cons (by decide) body)]
  exact object_written hbody (bind_eq_ok.2 ⟨_, hmembers, rfl⟩)

/-! ### Refusals -/

/-- A response tells a message: all of its body arrived, and it is the record of the message. -/
structure Tells (response : Http.Response) (message : String) : Prop where
  complete : response.complete = true
  record : Records (lenientText response.body) message

/-- A response that is no success is a failure of the server, and what the operator is shown of it
is what the response tells, if it tells anything. It can be read unless a blank message is told. -/
theorem reason_readable_iff (call : Call) {response : Http.Response}
    (hstatus : Http.isSuccess response.status = false) :
    ∃ message, readResponse call response = .error (.server response.status message) ∧
      (∀ summary, (Notification.ofFailure summary (.server response.status message)).detail =
        message) ∧
      (∀ said, Tells response said → message = said) ∧
      (isBlankText message = true ↔ ∃ said, Tells response said ∧ isBlankText said = true) := by
  let body := if response.complete then lenientText response.body else ""
  have hrecords : ∀ said, Tells response said ↔ Records body said := by
    intro said
    by_cases hcomplete : response.complete = true
    · rw [show body = lenientText response.body from if_pos hcomplete]
      exact ⟨fun htells => htells.record, fun hrecord => ⟨hcomplete, hrecord⟩⟩
    · rw [show body = "" from if_neg hcomplete]
      exact ⟨fun htells => absurd htells.complete hcomplete,
        fun hrecord => absurd hrecord (not_records_empty said)⟩
  refine ⟨failureMessage response.status body, ?_, fun _ => rfl, fun said htells => ?_, ?_, ?_⟩
  · rw [readResponse, hstatus]
    rfl
  · exact failureMessage_of_records _ ((hrecords said).1 htells)
  · intro hblank
    by_contra hnone
    have hreadable : isBlankText (failureMessage response.status body) = false := by
      by_cases hsome : ∃ said, Records body said
      · obtain ⟨said, hrecord⟩ := hsome
        rw [failureMessage_of_records _ hrecord]
        exact Bool.eq_false_iff.2 fun hsaid => hnone ⟨said, (hrecords said).2 hrecord, hsaid⟩
      · exact readable_of_not_records _ fun said hrecord => hsome ⟨said, hrecord⟩
    exact Bool.false_ne_true (hreadable.symm.trans hblank)
  · rintro ⟨said, htells, hsaid⟩
    rwa [failureMessage_of_records _ ((hrecords said).1 htells)]

/-- A response that broke off in the middle of its message. -/
def brokenOff : Http.Response :=
  { status := 599, body := "\x7b\"message\": \" ".toUTF8.toList, complete := false }

theorem broken_off_refusal_readable : Http.isSuccess brokenOff.status = false ∧
    ∃ message, readResponse .token brokenOff = .error (.server 599 message) ∧
      isBlankText message = false := by
  have hstatus : Http.isSuccess brokenOff.status = false := by decide
  obtain ⟨message, hread, -, -, hblank⟩ := reason_readable_iff .token hstatus
  refine ⟨hstatus, message, hread, Bool.eq_false_iff.2 fun hmessage => ?_⟩
  obtain ⟨said, htells, -⟩ := hblank.1 hmessage
  exact Bool.false_ne_true htells.complete

/-- A response with the message of one blank. -/
def blankRefusal : Http.Response :=
  { status := 500, body := (compactText (.object [("message", .text " ")])).toUTF8.toList }

theorem blank_reason_passed_on : Http.isSuccess blankRefusal.status = false ∧
    readResponse .token blankRefusal = .error (.server 500 " ") ∧
    isBlankText (Notification.ofFailure "Cannot get server token" (.server 500 " ")).detail =
      true := by
  have hbody : lenientText blankRefusal.body =
      compactText (.object [("message", .text " ")]) := by
    rw [blankRefusal, lenientText, toList_toUTF8, lenientChars_encodeUtf8, String.ofList_toList]
  have hrecord : Records (lenientText blankRefusal.body) " " :=
    hbody ▸ records_written .compact " "
  refine ⟨by decide, ?_, by decide⟩
  rw [readResponse, if_neg (by decide), responseFailure]
  rw [show blankRefusal.complete = true from rfl, if_pos rfl, failureMessage_of_records _ hrecord]
  rfl

end FleetConsole.Server
