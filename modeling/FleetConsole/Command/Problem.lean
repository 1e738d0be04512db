import FleetConsole.CommandLine.Invocation
import FleetConsole.Notification

/-!
# Why a command fails

A command fails because the settings cannot be used, because what it is asked for is refused at
once, because something was reported on the way, or because what it found is too wide for a table.
All that was reported counts, in order.
-/

namespace FleetConsole.Command

inductive Problem where
  | settings (problem : SettingsProblem)
  | refused (failure : Failure)
  | reported (notifications : List Notification)
  /-- A cell would have to be padded to too great a width. -/
  | tooWide
  deriving DecidableEq, Repr, Inhabited

namespace Problem

/-- The text of a problem, with one line for each report. -/
def text : Problem → String
  | settings problem => problem.text
  | refused failure => failure.text
  | reported notifications => Text.joinWith "\n" (notifications.map Notification.text)
  | tooWide => "Formatting argument out of range"

/-- How the program tells its caller of a problem; it breaks off where a table is too wide. -/
def exitCode : Problem → UInt32
  | tooWide => 101
  | _ => 1

end Problem

end FleetConsole.Command
