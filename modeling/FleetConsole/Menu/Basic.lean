import FleetConsole.Account
import FleetConsole.Display.Table

/-!
# The menu

The navigation of the console: groups of items, each leading to a route. What it offers depends on
the role of the user; the configuration of servers is for super-administrators only and comes first.
-/

namespace FleetConsole

structure Menu.Item where
  label : String
  icon : String
  route : String
  deriving DecidableEq, Repr, Inhabited

structure Menu.Group where
  label : String
  items : List Menu.Item
  deriving DecidableEq, Repr, Inhabited

structure Menu where
  groups : List Menu.Group
  deriving DecidableEq, Repr, Inhabited

namespace Menu

def servers : Group :=
  ⟨"Configuration",
    [⟨"Kea DHCP", "fa fa-server", "/apps/kea/all"⟩, ⟨"Machines", "fa fa-server", "/machines/all"⟩]⟩

def users : Group := ⟨"Configuration", [⟨"Users", "fa fa-user", "/users"⟩]⟩

/-- What concerns the user alone. -/
def profile : Group :=
  ⟨"Profile", [⟨"Settings", "fa fa-cog", "/settings"⟩, ⟨"Logout", "pi pi-sign-out", "/logout"⟩]⟩

/-- The menu for a role, or for nobody. -/
def forRole (role : Option Role) : Menu :=
  if role = some .superAdmin then ⟨[servers, users, profile]⟩ else ⟨[users, profile]⟩

def routes (menu : Menu) : List String :=
  menu.groups.flatMap fun group => group.items.map Item.route

def labelWidth : Nat := 10

/-- A menu as lines of text: a group's label, and its items indented under it. -/
def text (menu : Menu) : String :=
  Text.joinWith "\n" <| menu.groups.flatMap fun group =>
    group.label :: group.items.map fun item =>
      "  " ++ Display.padRight labelWidth item.label ++ " " ++ item.route

end Menu

end FleetConsole
