import FleetConsole.Machine.Query
import FleetConsole.Settings.Sources
import FleetConsole.Url.Parse

/-!
# Valid settings

Settings are valid if the server's address leads to a host by one of the two schemes for requests, a
page can have as many machines as asked for, and a request may take any time at all. What the
command line says takes precedence over what was loaded, and the settings are checked after that.
-/

namespace FleetConsole

/-- What the command line says about settings. -/
structure SettingsOverrides where
  serverUrl : Option String := none
  sessionHeader : Option String := none
  sessionToken : Option String := none
  pageSize : Option Nat := none
  dumpDir : Option String := none
  deriving DecidableEq, Repr, Inhabited

namespace Settings

def validate (s : Settings) : Except SettingsProblem Unit := do
  let url ←
    match Url.parse s.serverUrl with
    | .ok url => pure url
    | .error e => .error (.invalidUrl s.serverUrl e.text)
  if !url.isHttp then .error (.wrongScheme s.serverUrl)
  else
    match Query.checkLimit s.pageSize with
    | .error failure => .error (.limit failure)
    | .ok _ => if s.timeout = 0 then .error .noTimeout else .ok ()

def override (s : Settings) (o : SettingsOverrides) : Settings :=
  { s with
    serverUrl := o.serverUrl.getD s.serverUrl
    sessionHeader := o.sessionHeader.getD s.sessionHeader
    sessionToken := o.sessionToken.or s.sessionToken
    pageSize := o.pageSize.getD s.pageSize
    dumpDir := o.dumpDir.getD s.dumpDir }

def apply (s : Settings) (o : SettingsOverrides) : Except SettingsProblem Settings := do
  let s := s.override o
  s.validate
  return s

end Settings

end FleetConsole
