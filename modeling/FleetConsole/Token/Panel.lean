import FleetConsole.Failure

/-!
# The installation instruction

New agents register with a token of the server. The instruction that shows it is fetched when it is
opened, can have its token regenerated while it is open, and can be closed at any moment, also while
an answer is under way. A fetch is numbered: its answer counts only if no later fetch was begun, and
an answer that finds the instruction closed does not open it again.
-/

namespace FleetConsole.Token

inductive Phase where
  | hidden
  | loading
  | shown
  | regenerating
  deriving DecidableEq, Repr, Inhabited

namespace Phase

def name : Phase → String
  | hidden => "hidden"
  | loading => "loading"
  | shown => "shown"
  | regenerating => "regenerating"

def all : List Phase := [hidden, loading, shown, regenerating]

def ofName? (name : String) : Option Phase :=
  all.find? fun phase => phase.name = name

end Phase

structure Instruction where
  phase : Phase := .hidden
  visible : Bool := false
  /-- The token. It is kept when the instruction is closed. -/
  value : String := ""
  deriving DecidableEq, Repr, Inhabited

structure Panel where
  instruction : Instruction := {}
  attempts : Nat := 0
  deriving DecidableEq, Repr, Inhabited

/-- What an answer brings about beside the new state of the panel. -/
structure Outcome where
  panel : Panel
  /-- Whether the instruction was published, be it with an equal value. -/
  published : Bool
  failure : Option Failure
  deriving Repr, Inhabited

namespace Panel

def inPhase (p : Panel) (phase : Phase) : Panel :=
  { p with instruction := { p.instruction with phase } }

/-- A fetch is begun, unless the instruction is open or under way. Its number is the number of
fetches then begun. -/
def beginShow? (p : Panel) : Option Panel :=
  if p.instruction.phase = .hidden then
    some { p.inPhase .loading with attempts := p.attempts + 1 }
  else none

def completeShow (p : Panel) (attempt : Nat) : Except Failure String → Outcome
  | .ok token =>
    if p.attempts = attempt ∧ p.instruction.phase = .loading then
      ⟨{ p with instruction := ⟨.shown, true, token⟩ }, true, none⟩
    else ⟨p, false, none⟩
  | .error failure =>
    if p.attempts = attempt then
      let phase := if p.instruction.phase = .loading then .hidden else p.instruction.phase
      ⟨{ p with instruction := ⟨phase, false, ""⟩ }, true, some failure⟩
    else ⟨p, false, none⟩

/-- A regeneration is begun, if the instruction is open and idle. -/
def beginRegenerate? (p : Panel) : Option Panel :=
  if p.instruction.phase = .shown then some (p.inPhase .regenerating) else none

def completeRegenerate (p : Panel) : Except Failure String → Outcome
  | .ok token =>
    if p.instruction.phase = .regenerating then
      ⟨{ p with instruction := { p.instruction with phase := .shown, value := token } }, true, none⟩
    else ⟨p, false, none⟩
  | .error failure =>
    let p := if p.instruction.phase = .regenerating then p.inPhase .shown else p
    ⟨p, true, some failure⟩

/-- The instruction is closed, if it was not. -/
def close? (p : Panel) : Option Panel :=
  if p.instruction.phase = .hidden then none
  else some { p with instruction := { p.instruction with phase := .hidden, visible := false } }

end Panel

end FleetConsole.Token
