import FleetConsole.Http.Message
import FleetConsole.Text.Blank
import FleetConsole.Text.Utf8

/-!
# Messages on the wire

A request as the lines that are sent, and a response as it is read from all the bytes that came
back. A head is lines up to an empty one. How much of what follows is the body is said by the status
or by the fields: it comes in chunks, each behind its size, or has a length, or goes on to the end.
-/

namespace FleetConsole.Http

open Text

/-! ### Requests -/

def hostText (url : Url) : String :=
  String.ofList ((url.host.map Url.Host.chars).getD [] ++ url.portChars)

/-- All fields of a request. A request that could have a body says that it has none. -/
def Request.allFields (request : Request) : List (String × String) :=
  let length :=
    match request.method with
    | .get => []
    | .put => [("content-length", "0")]
  request.fields ++ [("host", hostText request.url), ("accept", "*/*"), ("connection", "close")]
    ++ length

def Request.wireText (request : Request) : String :=
  let first := request.method.name ++ " " ++ request.target ++ " HTTP/1.1"
  let fields := request.allFields.map fun field => field.1 ++ ": " ++ field.2
  joinWith "\r\n" (first :: fields ++ ["", ""])

/-! ### The head of a response -/

/-- A line without the return in front of its end. -/
def withoutReturn (line : List Char) : List Char :=
  if line.getLast? = some '\r' then line.dropLast else line

def nextLine? : List UInt8 → Option (List Char × List UInt8)
  | [] => none
  | b :: rest =>
    if b = 0x0A then some ([], rest)
    else (nextLine? rest).map fun r => (Char.ofNat b.toNat :: r.1, r.2)

theorem length_lt_of_nextLine? {bytes rest : List UInt8} {line : List Char}
    (h : nextLine? bytes = some (line, rest)) : rest.length < bytes.length := by
  induction bytes generalizing line with
  | nil => simp [nextLine?] at h
  | cons b bytes ih =>
      rw [nextLine?] at h
      split at h
      · simp only [Option.some.injEq, Prod.mk.injEq] at h
        simp [h.2]
      · obtain ⟨⟨line, rest'⟩, hr, he⟩ := Option.map_eq_some_iff.1 h
        simp only [Prod.mk.injEq] at he
        have := ih (he.2 ▸ hr)
        simp only [List.length_cons]
        omega

/-- The lines up to an empty one, and the bytes after that. -/
def head? (bytes : List UInt8) : Option (List (List Char) × List UInt8) :=
  match h : nextLine? bytes with
  | none => none
  | some (line, rest) =>
    have := length_lt_of_nextLine? h
    let line := withoutReturn line
    if line.isEmpty then some ([], rest)
    else (head? rest).map fun r => (line :: r.1, r.2)
termination_by bytes.length

/-- The status in the first line: three digits behind the version. -/
def status? (line : List Char) : Option Nat := do
  let rest ← afterStart? "HTTP/1.".toList line
  match rest with
  | version :: ' ' :: a :: b :: c :: rest =>
    if version.isDigit && (rest.isEmpty || rest.head? = some ' ') then nat? [a, b, c] else none
  | _ => none

/-- Whether a character may stand around a value without belonging to it. -/
def isSpace (c : Char) : Bool := c = ' ' || c = '\t'

def field? (line : List Char) : Option (String × List UInt8) :=
  let value := line.dropWhile (· ≠ ':')
  if value.isEmpty then none
  else
    let value := dropEndWhile isSpace (value.tail.dropWhile isSpace)
    some (String.ofList (line.takeWhile (· ≠ ':')), value.map fun c => UInt8.ofNat c.toNat)

/-! ### The body of a response -/

/-- The size in front of a chunk, which may have remarks behind a semicolon. -/
def chunkSize? (line : List Char) : Option Nat :=
  natInBase? 16 (trimChars (line.takeWhile (· ≠ ';')))

/-- What chunks hold, and whether the last one arrived. -/
def joinChunks (bytes : List UInt8) : List UInt8 × Bool :=
  match h : nextLine? bytes with
  | none => ([], false)
  | some (line, rest) =>
    have := length_lt_of_nextLine? h
    match chunkSize? (withoutReturn line) with
    | none => ([], false)
    | some 0 => ([], true)
    | some size =>
      if rest.length < size then (rest, false)
      else
        let more := joinChunks (rest.drop (size + 2))
        (rest.take size ++ more.1, more.2)
termination_by bytes.length
decreasing_by
  simp only [List.length_drop]
  omega

/-- Whether responses with a status never have a body. -/
def isBodiless (status : Nat) : Bool := status < 200 || status = 204 || status = 304

def Response.fieldText? (response : Response) (name : String) : Option (List Char) :=
  (response.field? name).map fun value => (lenientChars value).map Char.toLower

/-- The response that a head and the bytes after it make. -/
def Response.withBytes? (head : Response) (bytes : List UInt8) : Option Response :=
  if isBodiless head.status then some head
  else if head.fieldText? "transfer-encoding" = some "chunked".toList then
    let (body, complete) := joinChunks bytes
    some { head with body, complete }
  else
    match head.fieldText? "content-length" with
    | none => some { head with body := bytes }
    | some length => do
      let length ← nat? length
      return { head with body := bytes.take length, complete := length ≤ bytes.length }

def response? (bytes : List UInt8) : Option Response := do
  let (lines, rest) ← head? bytes
  match lines with
  | [] => none
  | first :: others =>
    let head : Response := { status := ← status? first, fields := ← others.mapM field? }
    head.withBytes? rest

end FleetConsole.Http
