import FleetConsole.Url.Basic

/-!
# Reading addresses

An address is read with much tolerance: controls and blanks around it do not count, nor do tabs and
line ends anywhere; slashes before the host may be missing or too many, and for schemes with a host
a backslash is a slash. Dots in the path are resolved. What cannot be read is refused with the first
thing that is wrong.
-/

namespace FleetConsole.Url

open Text

/-- The characters of a text that count. -/
def relevant (s : String) : List Char :=
  let outer (c : Char) : Bool := c.toNat ≤ 0x20
  (dropEndWhile outer (s.toList.dropWhile outer)).filter fun c =>
    c ≠ '\t' && c ≠ '\n' && c ≠ '\r'

/-- The scheme in small letters and the characters after its colon. -/
def scheme? (cs : List Char) : Option (List Char × List Char) :=
  let isSchemeChar (c : Char) : Bool := c.isAlphanum || c = '+' || c = '-' || c = '.'
  match cs.dropWhile isSchemeChar with
  | ':' :: rest =>
    if cs.head?.any Char.isAlpha then some ((cs.takeWhile isSchemeChar).map Char.toLower, rest)
    else none
  | _ => none

/-! ### Path, query and fragment -/

def isHere (segment : List Char) : Bool :=
  let s := segment.map Char.toLower
  s = ['.'] || s = "%2e".toList

def isAbove (segment : List Char) : Bool :=
  let s := segment.map Char.toLower
  s = "..".toList || s = "%2e.".toList || s = ".%2e".toList || s = "%2e%2e".toList

/-- Segments with dots resolved, going on from those in `kept`. -/
def resolveDots (kept : List (List Char)) : List (List Char) → List (List Char)
  | [] => kept
  | [segment] =>
    if isAbove segment then kept.dropLast ++ [[]]
    else if isHere segment then kept ++ [[]]
    else kept ++ [segment]
  | segment :: next :: rest =>
    if isAbove segment then resolveDots kept.dropLast (next :: rest)
    else if isHere segment then resolveDots kept (next :: rest)
    else resolveDots (kept ++ [segment]) (next :: rest)

/-- The segments of a path whose first separator is left out. -/
def segmentsOf (special : Bool) (cs : List Char) : List (List Char) :=
  let isSeparator (c : Char) : Bool := c = '/' || (special && c = '\\')
  resolveDots [] ((splitChars isSeparator cs).map (percentEncode inPath))

/-- A path after an authority. A scheme with a host always has one. -/
def pathAfterHost (special : Bool) (cs : List Char) : Path :=
  match cs with
  | [] => .segments (if special then [[]] else [])
  | c :: rest =>
    if c = '/' ∨ (special ∧ c = '\\') then .segments (segmentsOf special rest)
    else .segments (segmentsOf special (c :: rest))

/-- The characters of the path, those of the query and those of the fragment. -/
def splitTail (cs : List Char) : List Char × Option (List Char) × Option (List Char) :=
  let beforeFragment := cs.takeWhile (· ≠ '#')
  let fragment :=
    match cs.dropWhile (· ≠ '#') with
    | _ :: rest => some rest
    | [] => none
  let query :=
    match beforeFragment.dropWhile (· ≠ '?') with
    | _ :: rest => some rest
    | [] => none
  (beforeFragment.takeWhile (· ≠ '?'), query, fragment)

def withTail (url : Url) (special : Bool) (query fragment : Option (List Char)) : Url :=
  { url with
    query := query.map (percentEncode (if special then inSpecialQuery else inQuery))
    fragment := fragment.map (percentEncode inFragment) }

/-! ### The authority -/

/-- Characters up to the end of the authority, and those after it. -/
def splitAuthority (special : Bool) (cs : List Char) : List Char × List Char :=
  let inside (c : Char) : Bool :=
    !(c = '/' || c = '?' || c = '#' || (special && c = '\\'))
  (cs.takeWhile inside, cs.dropWhile inside)

/-- The characters before the last at sign, if there is one, and those after it. -/
def splitUserInfo (cs : List Char) : Option (List Char) × List Char :=
  match splitChars (· = '@') cs with
  | [] => (none, cs)
  | [all] => (none, all)
  | parts => (some (['@'].intercalate parts.dropLast), parts.getLast?.getD [])

/-- The user name and the password, which is behind the first colon. An empty one is none. -/
def readUserInfo (cs : List Char) : List Char × Option (List Char) :=
  let name := percentEncode inUserInfo (cs.takeWhile (· ≠ ':'))
  match cs.dropWhile (· ≠ ':') with
  | _ :: c :: rest => (name, some (percentEncode inUserInfo (c :: rest)))
  | _ => (name, none)

/-- The characters of the host, and those after it. A colon between brackets belongs to the host. -/
def splitHost (inside : Bool) : List Char → List Char × List Char
  | [] => ([], [])
  | c :: cs =>
    if c = ':' && !inside then ([], c :: cs)
    else
      let (host, rest) := splitHost (if c = '[' then true else if c = ']' then false else inside) cs
      (c :: host, rest)

def readPort (cs : List Char) : Except ParseError (Option Nat) :=
  if cs.isEmpty then .ok none
  else
    match nat? cs with
    | some n => if n < Nat.pow 2 16 then .ok (some n) else .error .invalidPort
    | none => .error .invalidPort

/-- The port behind a colon, unless it is the usual one. -/
def portAfterHost (scheme : List Char) (cs : List Char) : Except ParseError (Option Nat) :=
  match cs with
  | ':' :: rest => do
    let port ← readPort rest
    return port.filter fun n => some n ≠ usualPort? scheme
  | _ => .ok none

/-- The address that follows two slashes. -/
def afterSlashes (scheme : List Char) (special : Bool) (cs : List Char) :
    Except ParseError Url := do
  let (authority, rest) := splitAuthority special cs
  let (userInfo, hostAndPort) := splitUserInfo authority
  if userInfo = some [] ∧ hostAndPort.isEmpty ∧ !rest.isEmpty then .error .emptyHost
  else
    let (userName, password) := readUserInfo (userInfo.getD [])
    let (hostChars, portChars) := splitHost false hostAndPort
    let host ←
      if hostChars.isEmpty then
        if special || !portChars.isEmpty then .error .emptyHost else pure none
      else if special then (Host.parse hostChars).map some
      else (Host.parseOpaque hostChars).map some
    let port ← portAfterHost scheme portChars
    if host.isNone && !(userName.isEmpty && password.isNone) then .error .emptyHost
    else
      let (path, query, fragment) := splitTail rest
      let url : Url :=
        { scheme, userName, password, host, hasAuthority := true, port
          path := pathAfterHost special path }
      return url.withTail special query fragment

/-! ### Other schemes -/

def fileUrl (scheme : List Char) (cs : List Char) : Except ParseError Url := do
  let isSlash (c : Char) : Bool := c = '/' || c = '\\'
  let (host, rest) ←
    match cs with
    | a :: b :: rest =>
      if isSlash a && isSlash b then
        let (hostChars, rest) := splitAuthority true rest
        if hostChars.isEmpty then pure (none, rest)
        else do
          let host ← Host.parse hostChars
          pure (if host = .domain "localhost".toList then none else some host, rest)
      else pure (none, a :: b :: rest)
    | cs => pure (none, cs)
  let (path, query, fragment) := splitTail rest
  let url : Url := { scheme, host, hasAuthority := true, path := pathAfterHost true path }
  return url.withTail true query fragment

def otherUrl (scheme : List Char) (cs : List Char) : Except ParseError Url :=
  match cs with
  | '/' :: '/' :: rest => afterSlashes scheme false rest
  | cs =>
    let (path, query, fragment) := splitTail cs
    let url : Url :=
      match path with
      | '/' :: rest => { scheme, path := .segments (segmentsOf false rest) }
      | path => { scheme, path := .uninterpreted (percentEncode isControl path) }
    .ok (url.withTail false query fragment)

def parse (s : String) : Except ParseError Url :=
  match scheme? (relevant s) with
  | none => .error .noScheme
  | some (scheme, rest) =>
    if scheme = "file".toList then fileUrl scheme rest
    else if isSpecial scheme then
      afterSlashes scheme true (rest.dropWhile fun c => c = '/' || c = '\\')
    else otherUrl scheme rest

end FleetConsole.Url
