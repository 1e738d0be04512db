import FleetConsole.Proofs.Exchange
import FleetConsole.Token.Desk

/-!
# The steps of the installation instruction

The desk of the instruction as an exchange: its operations open the instruction, replace its token
and close it. `Step` lists everything that an event can do to the desk, and `step_after` says that
nothing else happens. What is proved of runs goes by cases on `Step`, so only this module knows how
the desk computes.
-/

namespace FleetConsole.Token

inductive Operation where
  | showToken
  | regenerateToken
  | closeToken
  deriving DecidableEq, Repr

/-- What happened to the instruction, the latest first. -/
abbrev History := FleetConsole.History Operation Request (Except Failure String)

/-- The instruction after the answer to a regeneration that counts. -/
def Instruction.regenerated (i : Instruction) : Except Failure String → Instruction
  | .ok token => ⟨.shown, i.visible, token⟩
  | .error _ => ⟨.shown, i.visible, i.value⟩

@[simp] theorem Instruction.regenerated_phase (i : Instruction) (given : Except Failure String) :
    (i.regenerated given).phase = .shown := by
  cases given <;> rfl

@[simp] theorem Instruction.regenerated_visible (i : Instruction)
    (given : Except Failure String) : (i.regenerated given).visible = i.visible := by
  cases given <;> rfl

namespace Desk

abbrev phase (desk : Desk) : Phase := desk.panel.instruction.phase

def display (desk : Desk) (instruction : Instruction) : Desk :=
  { desk with panel := { desk.panel with instruction } }

/-- The desk after the answer to a request. -/
def settle (desk : Desk) (request : Request) (instruction : Instruction) : Desk :=
  { desk.display instruction with
    pending := desk.pending.filter fun other => other.serial ≠ request.serial }

def nextFetch (desk : Desk) : Request := ⟨desk.issued + 1, .fetch (desk.panel.attempts + 1)⟩

def nextRegeneration (desk : Desk) : Request := ⟨desk.issued + 1, .regenerate⟩

def fetching (desk : Desk) : Desk where
  panel := ⟨{ desk.panel.instruction with phase := .loading }, desk.panel.attempts + 1⟩
  issued := desk.issued + 1
  pending := desk.pending ++ [desk.nextFetch]

def regenerating (desk : Desk) : Desk where
  panel := { desk.panel with instruction := { desk.panel.instruction with phase := .regenerating } }
  issued := desk.issued + 1
  pending := desk.pending ++ [desk.nextRegeneration]

def closed (desk : Desk) : Desk :=
  desk.display ⟨.hidden, false, desk.panel.instruction.value⟩

def begun (desk : Desk) : Option (Desk × Request) → Desk × List Request
  | some (next, request) => (next, [request])
  | none => (desk, [])

/-- An operation, with the request that it sends. -/
def call (desk : Desk) : Operation → Desk × List Request
  | .showToken => desk.begun desk.show?
  | .regenerateToken => desk.begun desk.regenerate?
  | .closeToken => (desk.close?.getD desk, [])

@[simp] theorem fetching_phase (desk : Desk) : desk.fetching.phase = .loading := rfl

@[simp] theorem regenerating_phase (desk : Desk) : desk.regenerating.phase = .regenerating := rfl

@[simp] theorem closed_phase (desk : Desk) : desk.closed.phase = .hidden := rfl

@[simp] theorem settle_phase (desk : Desk) (request : Request) (instruction : Instruction) :
    (desk.settle request instruction).phase = instruction.phase := rfl

@[simp] theorem settle_instruction (desk : Desk) (request : Request) (instruction : Instruction) :
    (desk.settle request instruction).panel.instruction = instruction := rfl

/-! ### What an operation does -/

theorem show?_eq (desk : Desk) :
    desk.show? = if desk.phase = .hidden then some (desk.fetching, desk.nextFetch) else none := by
  by_cases hphase : desk.phase = .hidden <;>
    simp [show?, Panel.beginShow?, Panel.inPhase, request, fetching, nextFetch, hphase]

theorem regenerate?_eq (desk : Desk) : desk.regenerate? =
    if desk.phase = .shown then some (desk.regenerating, desk.nextRegeneration) else none := by
  by_cases hphase : desk.phase = .shown <;>
    simp [regenerate?, Panel.beginRegenerate?, Panel.inPhase, request, regenerating,
      nextRegeneration, hphase]

theorem close?_eq (desk : Desk) :
    desk.close? = if desk.phase = .hidden then none else some desk.closed := by
  by_cases hphase : desk.phase = .hidden <;> simp [close?, Panel.close?, closed, display, hphase]

/-- A regeneration is begun exactly while the instruction is shown. -/
theorem regenerate?_eq_some {desk next : Desk} {request : Request} :
    desk.regenerate? = some (next, request) ↔
      desk.phase = .shown ∧ next = desk.regenerating ∧ request = desk.nextRegeneration := by
  rw [regenerate?_eq]
  by_cases hphase : desk.phase = .shown <;> simp [hphase, eq_comm]

inductive Called (desk : Desk) : Operation → Desk × List Request → Prop
  | fetch (hphase : desk.phase = .hidden) :
      Called desk .showToken (desk.fetching, [desk.nextFetch])
  | regeneration (hphase : desk.phase = .shown) :
      Called desk .regenerateToken (desk.regenerating, [desk.nextRegeneration])
  | closing (hphase : desk.phase ≠ .hidden) : Called desk .closeToken (desk.closed, [])
  | refusal (operation : Operation) (hphase : operation = .closeToken → desk.phase = .hidden) :
      Called desk operation (desk, [])

theorem called (desk : Desk) (operation : Operation) :
    Called desk operation (desk.call operation) := by
  cases operation with
  | showToken =>
    rw [call, show?_eq]
    split
    · exact .fetch ‹_›
    · exact .refusal _ (by simp)
  | regenerateToken =>
    rw [call, regenerate?_eq]
    split
    · exact .regeneration ‹_›
    · exact .refusal _ (by simp)
  | closeToken =>
    rw [call, close?_eq]
    split
    · exact .refusal _ fun _ => ‹_›
    · exact .closing ‹_›

theorem Called.requests {desk : Desk} {operation : Operation} {result : Desk × List Request}
    (hcalled : Called desk operation result) :
    result.2.map Request.serial = List.range' (desk.issued + 1) result.2.length ∧
      result.1.issued = desk.issued + result.2.length ∧
      result.1.pending = desk.pending ++ result.2 := by
  cases hcalled with
  | fetch => exact ⟨rfl, rfl, rfl⟩
  | regeneration => exact ⟨rfl, rfl, rfl⟩
  | closing => exact ⟨rfl, rfl, (List.append_nil _).symm⟩
  | refusal => exact ⟨rfl, rfl, (List.append_nil _).symm⟩

/-! ### What an answer does -/

/-- Everything that an answer can do to the instruction. -/
inductive Answered (desk : Desk) (request : Request) : Except Failure String → Instruction → Prop
  | fetched (token : String) (hlatest : request.purpose = .fetch desk.panel.attempts)
      (hphase : desk.phase = .loading) : Answered desk request (.ok token) ⟨.shown, true, token⟩
  | failed (failure : Failure) (hlatest : request.purpose = .fetch desk.panel.attempts) :
      Answered desk request (.error failure)
        ⟨if desk.phase = .loading then .hidden else desk.phase, false, ""⟩
  | regenerated (given : Except Failure String) (hpurpose : request.purpose = .regenerate)
      (hphase : desk.phase = .regenerating) :
      Answered desk request given (desk.panel.instruction.regenerated given)
  | dropped (given : Except Failure String)
      (hfetch : request.purpose = .fetch desk.panel.attempts → desk.phase ≠ .loading)
      (hregeneration : request.purpose = .regenerate → desk.phase ≠ .regenerating) :
      Answered desk request given desk.panel.instruction

theorem answered (desk : Desk) (request : Request) (given : Except Failure String) :
    ∃ instruction, Answered desk request given instruction ∧
      (desk.answer request given).1 = desk.settle request instruction := by
  obtain ⟨serial, purpose⟩ := request
  cases purpose with
  | fetch attempt =>
    by_cases hlatest : desk.panel.attempts = attempt
    · subst hlatest
      cases given with
      | ok token =>
        by_cases hphase : desk.phase = .loading
        · refine ⟨_, .fetched token rfl hphase, ?_⟩
          simp [answer, Panel.completeShow, hphase, settle, display]
        · refine ⟨_, .dropped _ (fun _ => hphase) (by simp), ?_⟩
          simp [answer, Panel.completeShow, hphase, settle, display]
      | error failure =>
        refine ⟨_, .failed failure rfl, ?_⟩
        simp [answer, Panel.completeShow, settle, display]
    · refine ⟨_, .dropped _ (by simp [Ne.symm hlatest]) (by simp), ?_⟩
      cases given <;> simp [answer, Panel.completeShow, hlatest, settle, display]
  | regenerate =>
    by_cases hphase : desk.phase = .regenerating
    · refine ⟨_, .regenerated given rfl hphase, ?_⟩
      cases given <;>
        simp [answer, Panel.completeRegenerate, Panel.inPhase, hphase, settle, display,
          Instruction.regenerated]
    · refine ⟨_, .dropped given (by simp) fun _ => hphase, ?_⟩
      cases given <;> simp [answer, Panel.completeRegenerate, hphase, settle, display]

end Desk

def exchange : Exchange Desk Operation Request (Except Failure String) where
  number := Request.serial
  issued := Desk.issued
  pending := Desk.pending
  call := Desk.call
  answer desk request given := (desk.answer request given).1
  number_call desk operation := (desk.called operation).requests.1
  issued_call desk operation := (desk.called operation).requests.2.1
  pending_call desk operation := (desk.called operation).requests.2.2
  issued_answer _ _ _ := rfl
  pending_answer _ _ _ := rfl

@[simp] theorem exchange_open? (desk : Desk) (serial : Nat) :
    exchange.open? desk serial = desk.open? serial := rfl

abbrev Event := Exchange.Event Operation (Except Failure String)

/-- Everything that can happen in an event, and the desk after it. -/
inductive Step (desk : Desk) : History → Desk → Prop
  | fetch (hphase : desk.phase = .hidden) :
      Step desk [.issued desk.nextFetch, .called .showToken] desk.fetching
  | regeneration (hphase : desk.phase = .shown) :
      Step desk [.issued desk.nextRegeneration, .called .regenerateToken] desk.regenerating
  | closing (hphase : desk.phase ≠ .hidden) : Step desk [.called .closeToken] desk.closed
  | refusal (operation : Operation) (hphase : operation = .closeToken → desk.phase = .hidden) :
      Step desk [.called operation] desk
  | answer {request : Request} {given : Except Failure String} {instruction : Instruction}
      (hopen : request ∈ desk.pending) (hanswer : desk.Answered request given instruction) :
      Step desk [.answered request given] (desk.settle request instruction)
  | unknown : Step desk [] desk

theorem step_after (desk : Desk) (event : Event) :
    Step desk (exchange.heard desk event) (exchange.after desk event) := by
  cases event with
  | call operation =>
    have hcalled := desk.called operation
    simp only [Exchange.heard, Exchange.after]
    generalize hresult : exchange.call desk operation = result
    rw [show desk.call operation = result from hresult] at hcalled
    cases hcalled with
    | fetch hphase => exact .fetch hphase
    | regeneration hphase => exact .regeneration hphase
    | closing hphase => exact .closing hphase
    | refusal operation hphase => exact .refusal operation hphase
  | answer number given =>
    cases hopen : exchange.open? desk number with
    | none =>
      simp only [Exchange.heard, Exchange.after, hopen]
      exact .unknown
    | some request =>
      obtain ⟨instruction, hanswer, hafter⟩ := desk.answered request given
      rw [exchange.heard_answer hopen, exchange.after_answer hopen]
      rw [show exchange.answer desk request given = desk.settle request instruction from hafter]
      exact .answer (List.mem_of_find?_eq_some hopen) hanswer

end FleetConsole.Token
