import FleetConsole.Command.Machines
import FleetConsole.Command.Token
import FleetConsole.Menu.Basic

/-!
# Carrying out a command line

The menu needs neither settings nor a server. Every other command needs settings, which are loaded
and checked before anything is sent. A command either has a text to print or a problem, so a command
that fails prints nothing.
-/

namespace FleetConsole

namespace Invocation

def settings (invocation : Invocation) (files : Storage.Tree)
    (environment : List (String × String)) : Except SettingsProblem Settings := do
  let loaded ← Settings.load files environment invocation.config
  loaded.apply invocation.overrides

end Invocation

namespace Command

variable {m : Type → Type} [Monad m]

/-- A task that needs settings; `services` are those that the settings call for. -/
def withSettings (services : Settings → Services m) (settings : Except SettingsProblem Settings)
    (task : Services m → Settings → Task m String) : m (Except Problem String) :=
  match settings with
  | .error problem => return .error (.settings problem)
  | .ok settings => (task (services settings) settings).run

/-- What a command line prints, or its problem. -/
def run (services : Settings → Services m) (files : Storage.Tree)
    (environment : List (String × String)) (invocation : Invocation) : m (Except Problem String) :=
  let task := withSettings services (invocation.settings files environment)
  match invocation.command with
  | .listMachines place output wide =>
    task fun services settings => list services settings place output wide
  | .dumpMachine id place out => task fun services settings => dump services settings id place out
  | .showToken => task fun services settings => token services settings false
  | .regenerateToken => task fun services settings => token services settings true
  | .menu role => return .ok ((Menu.forRole role).text ++ "\n")

end Command

end FleetConsole
