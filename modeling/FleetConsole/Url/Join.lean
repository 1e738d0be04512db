import FleetConsole.Url.Parse

/-!
# References to addresses

A reference is an address, or what is different in it as seen from another address: what follows the
scheme, the path, the end of the path, the query, or only the fragment. It is written behind what
stays of the other address, and the whole is read.
-/

namespace FleetConsole.Url

def frontChars (url : Url) : List Char := url.scheme ++ ':' :: url.authorityChars

/-- The characters of a path up to its last name. -/
def Path.directoryChars (path : Path) : List Char :=
  (path.chars.reverse.dropWhile (· ≠ '/')).reverse

/-- What stays of an address in front of a reference that does not say its scheme. -/
def stays (url : Url) (reference : List Char) : List Char :=
  let isSlash (c : Char) : Bool := c = '/' || (isSpecial url.scheme && c = '\\')
  let whole := url.frontChars ++ url.path.chars
  match reference with
  | [] => whole ++ marked '?' url.query
  | c :: rest =>
    if isSlash c then if rest.head?.any isSlash then url.scheme ++ [':'] else url.frontChars
    else if c = '?' then whole
    else if c = '#' then whole ++ marked '?' url.query
    else url.frontChars ++ url.path.directoryChars

/-- The address that a reference means, as seen from an address. -/
def join (url : Url) (reference : String) : Except ParseError Url :=
  let seen (cs : List Char) : Except ParseError Url := parse (String.ofList (url.stays cs ++ cs))
  match scheme? (relevant reference) with
  | none => seen (relevant reference)
  | some (scheme, rest) =>
    -- The scheme may be repeated in front of what is different behind it.
    if scheme = url.scheme && isSpecial scheme && !"//".toList.isPrefixOf rest then seen rest
    else parse reference

end FleetConsole.Url
