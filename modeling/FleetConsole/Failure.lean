import FleetConsole.Text.Digits

/-!
# Failures

What can go wrong in an operation of the console, by cause. An answer that came too late is not a
failure. The text of a failure names the cause; its reason is the part shown to the operator, which
leaves out what kind of failure it was where the failure carries a message from elsewhere.
-/

namespace FleetConsole

inductive Failure where
  /-- The server could not be asked, or its answer could not be read. -/
  | transport (message : String)
  /-- The server answered with a status that is not a success. -/
  | server (status : Nat) (message : String)
  | invalidQuery (message : String)
  /-- A dump was asked of a machine that is not displayed. -/
  | unknownMachine (id : Int)
  /-- A dump could not be stored. -/
  | storage (path : String) (cause : String)
  deriving DecidableEq, Repr, Inhabited

namespace Failure

open Text

def text : Failure → String
  | transport message => "transport error: " ++ message
  | server status message => "server error (status " ++ natText status ++ "): " ++ message
  | invalidQuery message => "invalid query: " ++ message
  | unknownMachine id => "machine " ++ intText id ++ " is not in the current listing"
  | storage path cause => "failed to store dump at " ++ path ++ ": " ++ cause

/-- What the operator is shown of a failure. -/
def reason : Failure → String
  | transport message => message
  | server _ message => message
  | failure => failure.text

end Failure

end FleetConsole
