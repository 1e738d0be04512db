import FleetConsole.Url.Form
import FleetConsole.Url.Host

/-!
# Addresses

An address has a scheme, and for most schemes a host with an optional port and credentials, a path,
a query and a fragment. Its parts are kept as they are written, percent-encoded where they have to
be, so the text of an address is its parts put together.
-/

namespace FleetConsole

open Text

/-- The path of an address: names between slashes, or for a scheme that has no hierarchy just
characters. -/
inductive Url.Path where
  | segments (all : List (List Char))
  | uninterpreted (chars : List Char)
  deriving DecidableEq, Repr, Inhabited

structure Url where
  scheme : List Char
  userName : List Char := []
  password : Option (List Char) := none
  /-- The host, which may be absent, and whether there is a place for it. -/
  host : Option Url.Host := none
  hasAuthority : Bool := false
  /-- The port, unless it is the usual one of the scheme. -/
  port : Option Nat := none
  path : Url.Path
  query : Option (List Char) := none
  fragment : Option (List Char) := none
  deriving DecidableEq, Repr, Inhabited

namespace Url

/-! ### Schemes -/

/-- The schemes whose addresses lead to a host, with their usual ports. -/
def specialSchemes : List (String × Nat) :=
  [("http", 80), ("https", 443), ("ws", 80), ("wss", 443), ("ftp", 21)]

/-- The usual port of a scheme. -/
def usualPort? (scheme : List Char) : Option Nat :=
  (specialSchemes.find? fun s => s.1.toList = scheme).map Prod.snd

def isSpecial (scheme : List Char) : Bool := (usualPort? scheme).isSome

/-- Whether an address is one that requests can be sent to. -/
def isHttp (url : Url) : Bool :=
  url.scheme = "http".toList || url.scheme = "https".toList

/-! ### The text of an address -/

/-- A part behind its mark, if there is one. -/
def marked (mark : Char) : Option (List Char) → List Char
  | none => []
  | some cs => mark :: cs

def credentials (url : Url) : List Char :=
  if url.userName.isEmpty && url.password.isNone then []
  else url.userName ++ marked ':' url.password ++ ['@']

def portChars (url : Url) : List Char :=
  marked ':' (url.port.map digits)

def Path.chars : Path → List Char
  | segments all => all.flatMap fun segment => '/' :: segment
  | uninterpreted cs => cs

/-- What stands between the scheme and the path. -/
def authorityChars (url : Url) : List Char :=
  if url.hasAuthority then
    '/' :: '/' :: url.credentials ++ (url.host.map Host.chars).getD [] ++ url.portChars
  else
    match url.path with
    | .segments ([] :: _ :: _) => ['/', '.']
    | _ => []

def chars (url : Url) : List Char :=
  url.scheme ++ ':' :: url.authorityChars ++ url.path.chars ++ marked '?' url.query
    ++ marked '#' url.fragment

def text (url : Url) : String := String.ofList url.chars

/-! ### Changing an address -/

/-- The address with parameters after those that its query has. -/
def withParameters (url : Url) (parameters : List (String × String)) : Url :=
  if parameters.isEmpty then url
  else
    let added := Form.encode parameters
    let query :=
      match url.query with
      | none => added
      | some [] => added
      | some old => old ++ '&' :: added
    { url with query := some query }

def withoutCredentials (url : Url) : Url := { url with userName := [], password := none }

end Url

end FleetConsole
