import FleetConsole.Menu.Basic
import FleetConsole.Session.Basic

/-!
# Menus that follow a session

A mounted menu holds a subscription and is built again when its subscription has something to see.
-/

namespace FleetConsole.Menu

/-- A menu and the subscription by which it follows the session. -/
structure Mounted where
  subscription : Subscription
  menu : Menu
  deriving DecidableEq, Repr, Inhabited

namespace Mounted

def build (user : Option User) : Menu := forRole (user.map User.role)

/-- A subscription becomes a menu, and has seen the session then. -/
def mount (subscription : Subscription) (session : Session) : Mounted :=
  let (user, subscription) := subscription.current session
  ⟨subscription, build user⟩

/-- The menu built again, if the session has changed. -/
def refresh? (mounted : Mounted) (session : Session) : Option Mounted :=
  if mounted.subscription.hasChanged session then some (mount mounted.subscription session)
  else none

end Mounted

end FleetConsole.Menu
