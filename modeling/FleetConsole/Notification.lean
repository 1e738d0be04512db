import FleetConsole.Failure

/-!
# Notifications

What the console tells the operator beside its displays: a severity, one line that says what was
being done, and a detail. A failed operation is reported by one notification whose detail is the
reason of the failure.
-/

namespace FleetConsole

inductive Severity where
  | info
  | success
  | warn
  | error
  deriving DecidableEq, Repr, Inhabited

namespace Severity

def name : Severity → String
  | info => "info"
  | success => "success"
  | warn => "warn"
  | error => "error"

def all : List Severity := [info, success, warn, error]

def ofName? (name : String) : Option Severity :=
  all.find? fun severity => severity.name = name

end Severity

structure Notification where
  severity : Severity
  summary : String
  detail : String
  deriving DecidableEq, Repr, Inhabited

namespace Notification

def ofFailure (summary : String) (failure : Failure) : Notification :=
  ⟨.error, summary, failure.reason⟩

/-- A notification on one line. -/
def text (n : Notification) : String :=
  n.severity.name ++ ": " ++ n.summary ++ ": " ++ n.detail

end Notification

/-- Notifications on their way to whoever reads them. They are kept in order until they are read,
and lost once nobody reads them any more. -/
structure Inbox where
  waiting : List Notification := []
  /-- Whether there is still a reader. -/
  hasReader : Bool := true
  deriving Repr, Inhabited

namespace Inbox

def send (inbox : Inbox) (n : Notification) : Inbox :=
  if inbox.hasReader then { inbox with waiting := inbox.waiting ++ [n] } else inbox

/-- All waiting notifications, if there is a reader to take them. -/
def drain (inbox : Inbox) : Option (List Notification) × Inbox :=
  if inbox.hasReader then (some inbox.waiting, { inbox with waiting := [] }) else (none, inbox)

/-- The reader goes away. -/
def leave (_ : Inbox) : Inbox := ⟨[], false⟩

end Inbox

end FleetConsole
