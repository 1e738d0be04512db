import FleetConsole.Url.Domain

/-!
# Hosts

A host is a domain, or an address of one of the two internet protocols. A domain that ends in a
number is read as an address of the older protocol, whose parts may be octal or hexadecimal and of
which the last may cover the bytes of those that are missing. An address of the newer protocol
stands in brackets.
-/

namespace FleetConsole.Url

open Text

/-- Why a text is no address. -/
inductive ParseError where
  | noScheme
  | emptyHost
  | invalidDomain
  | invalidHostCharacter
  | invalidIPv4
  | invalidIPv6
  | invalidPort
  deriving DecidableEq, Repr, Inhabited

def ParseError.text : ParseError → String
  | noScheme => "relative URL without a base"
  | emptyHost => "empty host"
  | invalidDomain => "invalid international domain name"
  | invalidHostCharacter => "invalid domain character"
  | invalidIPv4 => "invalid IPv4 address"
  | invalidIPv6 => "invalid IPv6 address"
  | invalidPort => "invalid port number"

inductive Host where
  | domain (name : List Char)
  | ipv4 (address : Nat)
  | ipv6 (pieces : List Nat)
  deriving DecidableEq, Repr, Inhabited

namespace Host

/-! ### The older protocol -/

/-- A part of an address: no number at all, or a number that may be too large for any address. -/
def ipv4Number? (part : List Char) : Option Nat :=
  match part with
  | [] => none
  | '0' :: 'x' :: rest => if rest.isEmpty then some 0 else natInBase? 16 rest
  | '0' :: 'X' :: rest => if rest.isEmpty then some 0 else natInBase? 16 rest
  | '0' :: c :: rest => natInBase? 8 (c :: rest)
  | rest => nat? rest

/-- The parts of a domain without the empty one after a point at the end. -/
def parts (name : List Char) : List (List Char) :=
  let all := splitChars (· = '.') name
  if 1 < all.length ∧ all.getLast? = some [] then all.dropLast else all

/-- Whether the last part of a domain is a number. -/
def endsInNumber (name : List Char) : Bool :=
  match (parts name).getLast? with
  | none => false
  | some last => (!last.isEmpty && last.all Char.isDigit) || (ipv4Number? last).isSome

/-- The number of which the leading bytes are given each by a part and the others by the last one.
-/
def ipv4? (name : List Char) : Option Nat := do
  let numbers ← (parts name).mapM ipv4Number?
  if 4 < numbers.length then none
  else
    let last ← numbers.getLast?
    let leading := numbers.dropLast
    if leading.any (255 < ·) ∨ Nat.pow 256 (4 - leading.length) ≤ last then none
    else
      let weighted := leading.mapIdx fun i n => n * Nat.pow 256 (3 - i)
      some (weighted.foldl (· + ·) last)

def ipv4Text (address : Nat) : List Char :=
  ['.'].intercalate ([3, 2, 1, 0].map fun i => digits (address / Nat.pow 256 i % 256))

/-! ### The newer protocol -/

/-- A byte of the older protocol inside an address of the newer one: no zeros in front. -/
def byte? (part : List Char) : Option Nat := do
  let n ← nat? part
  if part.length ≤ 3 ∧ n ≤ 255 ∧ (part.head? ≠ some '0' ∨ part.length = 1) then some n else none

/-- The pieces of one part between colons; only the last part may be an address of the older
protocol. -/
def piece? (last : Bool) (part : List Char) : Option (List Nat) :=
  if last && part.contains '.' then
    match splitChars (· = '.') part with
    | [a, b, c, d] => do
      return [256 * (← byte? a) + (← byte? b), 256 * (← byte? c) + (← byte? d)]
    | _ => none
  else if part.length ≤ 4 then (natInBase? 16 part).map fun n => [n]
  else none

/-- The pieces of parts, of which the last one may be special if it is the last of the address. -/
def pieces? (mayEnd : Bool) : List (List Char) → Option (List Nat)
  | [] => some []
  | [part] => piece? mayEnd part
  | part :: parts => do return (← piece? false part) ++ (← pieces? mayEnd parts)

/-- The parts before and after the first pair of colons. -/
def splitGap : List Char → Option (List Char × List Char)
  | ':' :: ':' :: rest => some ([], rest)
  | c :: rest => (splitGap rest).map fun r => (c :: r.1, r.2)
  | [] => none

/-- The parts between colons, none for no characters. -/
def colonParts (cs : List Char) : List (List Char) :=
  if cs.isEmpty then [] else splitChars (· = ':') cs

/-- The eight pieces of an address. A pair of colons stands for at least one piece that is zero. -/
def ipv6? (cs : List Char) : Option (List Nat) :=
  match splitGap cs with
  | none => do
    let pieces ← pieces? true (colonParts cs)
    if pieces.length = 8 then some pieces else none
  | some (before, after) => do
    let head ← pieces? false (colonParts before)
    let tail ← pieces? true (colonParts after)
    let count := head.length + tail.length
    if count ≤ 7 then some (head ++ List.replicate (8 - count) 0 ++ tail) else none

def zeros (pieces : List Nat) : Nat := (pieces.takeWhile (· = 0)).length

/-- The place and the length of the first longest run of at least two zeros. -/
def longestGap (pieces : List Nat) : Option (Nat × Nat) :=
  let runs := (List.range pieces.length).map fun i => (i, zeros (pieces.drop i))
  (runs.filter fun run => 2 ≤ run.2).foldl
    (fun best run =>
      match best with
      | none => some run
      | some b => if b.2 < run.2 then some run else some b)
    none

/-- Pieces between colons. -/
def piecesText (pieces : List Nat) : List Char :=
  [':'].intercalate (pieces.map (Nat.toDigits 16))

/-- An address, its longest run of zeros being left out. -/
def ipv6Text (pieces : List Nat) : List Char :=
  match longestGap pieces with
  | none => piecesText pieces
  | some (start, length) =>
    piecesText (pieces.take start) ++ ':' :: ':' :: piecesText (pieces.drop (start + length))

/-! ### Any host -/

def chars : Host → List Char
  | domain name => name
  | ipv4 address => ipv4Text address
  | ipv6 pieces => '[' :: ipv6Text pieces ++ [']']

/-- The characters between brackets, if there are brackets. -/
def inBrackets? (cs : List Char) : Option (Except ParseError (List Char)) :=
  match cs with
  | '[' :: rest =>
    if rest.getLast? = some ']' then some (.ok rest.dropLast) else some (.error .invalidIPv6)
  | _ => none

def parseIPv6 (cs : List Char) : Except ParseError Host :=
  match ipv6? cs with
  | some pieces => .ok (.ipv6 pieces)
  | none => .error .invalidIPv6

def parse (cs : List Char) : Except ParseError Host :=
  match inBrackets? cs with
  | some inner => inner >>= parseIPv6
  | none =>
    match String.fromUTF8? (ByteArray.mk (percentDecode (cs.flatMap utf8Bytes)).toArray) with
    | none => .error .invalidDomain
    | some decoded =>
      match Domain.toAscii? decoded.toList with
      | none => .error .invalidDomain
      | some [] => .error .emptyHost
      | some name =>
        if endsInNumber name then
          match ipv4? name with
          | some address => .ok (.ipv4 address)
          | none => .error .invalidIPv4
        else .ok (.domain name)

/-- The characters that may not occur in a host of any other kind of address. -/
def isForbidden (c : Char) : Bool :=
  ['\x00', '\t', '\n', '\r', ' ', '#', '/', ':', '<', '>', '?', '@', '[', '\\', ']', '^',
    '|'].contains c

/-- The host of any other kind of address, which is not interpreted. -/
def parseOpaque (cs : List Char) : Except ParseError Host :=
  match inBrackets? cs with
  | some inner => inner >>= parseIPv6
  | none =>
    if cs.any isForbidden then .error .invalidHostCharacter
    else .ok (.domain (percentEncode isControl cs))

end Host

end FleetConsole.Url
