import FleetConsole.Failure
import FleetConsole.Text.Blank

/-!
# Problems with settings

Why settings cannot be used: a file that is missing, not of a known format or malformed, a value of
the wrong type, or settings that are not valid together.
-/

namespace FleetConsole

structure WrongType where
  found : String
  expected : String
  key : String
  /-- Where the value came from, if that is known. -/
  origin : Option String
  deriving DecidableEq, Repr, Inhabited

inductive SettingsProblem where
  | missingFile (name : String)
  | unknownFormat (name : String)
  | malformedFile
  | wrongType (mismatch : WrongType)
  /-- The server's address is no address, for a reason. -/
  | invalidUrl (url reason : String)
  | wrongScheme (url : String)
  | limit (failure : Failure)
  | noTimeout
  deriving DecidableEq, Repr, Inhabited

namespace SettingsProblem

/-- The text of a problem. A malformed file has none of its own. -/
def text : SettingsProblem → String
  | missingFile name => "configuration file \"" ++ name ++ "\" not found"
  | unknownFormat name =>
    "configuration file \"" ++ name ++ "\" is not of a registered file format"
  | malformedFile => "configuration file is malformed"
  | wrongType m =>
    let origin :=
      match m.origin with
      | some origin => " in " ++ origin
      | none => ""
    "invalid type: " ++ m.found ++ ", expected " ++ m.expected ++ " for key `" ++ m.key ++ "`"
      ++ origin
  | invalidUrl url reason => "invalid server url '" ++ url ++ "': " ++ reason
  | wrongScheme url => "server url must use http or https: " ++ url
  | limit failure => failure.text
  | noTimeout => "request_timeout_secs must be greater than zero"

end SettingsProblem

end FleetConsole
