import FleetConsole.Proofs.Controller.Parts
import FleetConsole.Proofs.Token.Fetch

/-!
# The installation instruction in every run

The phases of the instruction keep their promises in every run of the desk, and so in every run of a
controller, where listings and dumps are requested in between. A fetch keeps its promise whatever
was closed, shown and regenerated before its answer came.
-/

namespace FleetConsole.Controller

theorem instruction_lawful :
    (∀ events, Token.Lawful (Token.exchange.run {} events) (Token.exchange.history {} events)) ∧
    ∀ setup start, initial setup = .ok start → ∀ events,
      Token.Lawful (start.run events).1.token (start.instructed events) ∧
        (start.instructed events).sent =
          ((start.run events).2.flatMap Effects.requests).filterMap Request.token? := by
  refine ⟨Token.lawful_run, fun setup start hstart events => ⟨?_, start.sent_instructed events⟩⟩
  have htoken : start.token = {} := by rw [initial_eq_ok hstart]
  rw [run_token, instructed, htoken]
  exact Token.lawful_run _

/-- While the first fetch waits, the instruction is loading, and nothing is displayed. -/
theorem instruction_lawful_loading :
    initial {} = .ok { listing := Listing.Desk.initial 10 none } ∧
      Display.instruction
        ((Controller.run { listing := Listing.Desk.initial 10 none }
          [.setView .authorized, .showToken]).1).instruction "http://localhost" = "" := by
  have hstart : initial {} = .ok { listing := Listing.Desk.initial 10 none } := rfl
  exact ⟨hstart, (instruction_lawful.2 {} _ hstart [.setView .authorized, .showToken]).1.text_hidden
    (.inr rfl) _⟩

/-- Showing an instruction that is open or under way does nothing. -/
theorem showToken_refused {c : Controller} (hphase : c.instruction.phase ≠ .hidden) :
    c.step .showToken = (c, { progress := .immediate }) := by
  have hnone : c.token.show? = none := Token.Desk.show?_eq_none.2 hphase
  simp only [step, hnone]
  rfl

/-- Every fetch keeps its promise, and none is begun while the instruction is not hidden. -/
theorem show_contract :
    (∀ before during desk request,
      (Token.exchange.run {} before).show? = some (desk, request) →
      (∀ given, .answer request.serial given ∉ during) →
      Token.FetchKept (Token.exchange.run desk during)
        (Token.exchange.history {} (before ++ .call .showToken :: during)) during request) ∧
    (∀ events, (Token.exchange.run {} events).phase ≠ .hidden →
      (Token.exchange.run {} events).show? = none ∧
        Token.exchange.after (Token.exchange.run {} events) (.call .showToken) =
          Token.exchange.run {} events) ∧
    ∀ c : Controller, c.instruction.phase ≠ .hidden →
      c.step .showToken = (c, { progress := .immediate }) := by
  refine ⟨fun _ _ _ _ hstart hwaits => Token.fetch_kept hstart hwaits, fun events hphase => ?_,
    fun c hphase => showToken_refused hphase⟩
  have hnone := Token.Desk.show?_eq_none.2 hphase
  refine ⟨hnone, ?_⟩
  show (Token.Desk.begun _ (Token.Desk.show? _)).1 = _
  rw [hnone]
  rfl

/-- The instruction is closed and shown again before its first fetch is answered. -/
def shownAgain : List Token.Event := [.call .showToken, .call .closeToken, .call .showToken]

/-- A controller whose first fetch is under way. -/
def fetching : Controller :=
  (Controller.run { listing := Listing.Desk.initial 10 none } [.showToken]).1

theorem overtaken_fetch_dropped :
    (Token.exchange.run {} []).show? =
        some (Token.exchange.run {} (shownAgain.take 1), ⟨1, .fetch 1⟩) ∧
      (∀ given : Except Failure String, .answer 1 given ∉ shownAgain.drop 1) ∧
      (∀ given, (Token.exchange.run {} shownAgain).answer ⟨1, .fetch 1⟩ given =
        ((Token.exchange.run {} shownAgain).settle ⟨1, .fetch 1⟩ ⟨.loading, false, ""⟩, false,
          none)) ∧
      (Token.exchange.run {} shownAgain).phase ≠ .hidden ∧
      (Token.exchange.run {} shownAgain).show? = none ∧
      fetching.instruction.phase ≠ .hidden ∧
      fetching.step .showToken = (fetching, { progress := .immediate }) := by
  have hstart : (Token.exchange.run {} []).show? =
      some (Token.exchange.run {} (shownAgain.take 1), ⟨1, .fetch 1⟩) := rfl
  have hwaits : ∀ given : Except Failure String, .answer 1 given ∉ shownAgain.drop 1 := by
    simp [shownAgain]
  have hphase : (Token.exchange.run {} shownAgain).phase ≠ .hidden := by decide
  have hfetching : fetching.instruction.phase ≠ .hidden := by decide
  refine ⟨hstart, hwaits, fun given => ?_, hphase, (show_contract.2.1 _ hphase).1, hfetching,
    show_contract.2.2 _ hfetching⟩
  have hkept := show_contract.1 [] (shownAgain.drop 1) _ _ hstart hwaits
  -- the fetch sent last is that of the second attempt
  have hlast : Token.lastFetch? (Token.exchange.history {} shownAgain) ≠ some ⟨1, .fetch 1⟩ := by
    decide
  exact hkept.superseded hlast given

end FleetConsole.Controller
