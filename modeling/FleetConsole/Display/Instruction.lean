import FleetConsole.Text.Blank
import FleetConsole.Token.Panel

/-!
# The installation instruction as text

The instruction names the server and the token with which a new agent registers. Nothing is shown
unless the instruction is visible.
-/

namespace FleetConsole.Display

open Text

def instruction (i : Token.Instruction) (server : String) : String :=
  if i.visible then
    let token := if i.phase = .loading then "(loading)" else i.value
    joinWith "\n"
      ["Install the agent on the machine and register it with this server:",
        "  server url:   " ++ trimEnd '/' server, "  server token: " ++ token]
  else ""

end FleetConsole.Display
