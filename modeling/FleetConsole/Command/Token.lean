import FleetConsole.Command.Task
import FleetConsole.Display.Instruction

/-!
# Commands about the installation token

The token is shown in the instruction for new agents. It is replaced only when asked for, and only
after it could be shown.
-/

namespace FleetConsole.Command

variable {m : Type → Type} [Monad m]

/-- The instruction is printed, with another token if asked for. -/
def token (services : Services m) (settings : Settings) (replaced : Bool) : Task m String := do
  let dir := settings.dumpDir
  let c ← begin {}
  let (c, _) ← carryOut services dir c [.showToken]
  let (c, _) ← if replaced then carryOut services dir c [.regenerateToken] else pure (c, [])
  return Display.instruction c.instruction settings.serverUrl ++ "\n"

end FleetConsole.Command
