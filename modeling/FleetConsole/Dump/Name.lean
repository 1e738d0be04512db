import FleetConsole.Text.Blank
import FleetConsole.Text.Digits

/-!
# Names of dump files

The server proposes a name for a dump. Only what follows the last slash or backslash of it is used,
without blanks around it, so that a dump never leaves its directory; a proposal of which nothing
usable is left gives way to a name made from the machine.
-/

namespace FleetConsole.Dump

open Text

structure Artifact where
  machine : Int
  /-- The name that the server proposes. -/
  fileName : String
  bytes : List UInt8
  deriving DecidableEq, Repr, Inhabited

/-- The name of a dump that has no usable name of its own. -/
def defaultName (machine : Int) : String :=
  "machine-" ++ intText machine ++ "-dump.tar.gz"

/-- Whether a character separates directories, here or elsewhere. -/
def isSeparator (c : Char) : Bool := c = '/' || c = '\\'

/-- The characters of a proposal that may name a file. -/
def baseChars (name : List Char) : List Char :=
  trimChars ((splitChars isSeparator name).getLast?.getD [])

def safeName (name : String) (machine : Int) : String :=
  let base := String.ofList (baseChars name.toList)
  if base = "" ∨ base = "." ∨ base = ".." then defaultName machine else base

end FleetConsole.Dump
