import FleetConsole.Json.Number

/-!
# Reading JSON

Values are read from left to right, and the first fault met decides how a text is refused. The
readers of containers take a reader for what stands inside, so a value of any shape and a value of a
given shape are read by the same loops: `items` for arrays and `members` for objects. A value that
is not kept is only checked for its form (`skip`), without a bound on its depth or on its numbers.

Containers may be nested up to `depthLimit` deep. The number of levels left is the recursion index
of `value`, and a bracket below the last level is malformed.
-/

namespace FleetConsole.Json.Read

open FleetConsole.Text

/-- How many containers may stand inside each other. -/
def depthLimit : Nat := 127

def isSpace (c : Char) : Bool :=
  c = ' ' || c = '\n' || c = '\t' || c = '\r'

def skipSpace (cs : List Char) : List Char :=
  cs.dropWhile isSpace

/-! ### Strings -/

/-- The number that four hexadecimal digits spell. -/
def quad? (a b c d : Char) : Option Nat := do
  return 4096 * (← hexDigit? a) + 256 * (← hexDigit? b) + 16 * (← hexDigit? c) + (← hexDigit? d)

/-- Four hexadecimal digits. Whether the text is too short is asked of its bytes. -/
def quad : Reader Nat
  | a :: b :: c :: d :: rest =>
    match quad? a b c d with
    | some n => .ok (n, rest)
    | none => .error .malformed
  | short =>
    if 4 ≤ (String.ofList short).utf8ByteSize then .error .malformed else .error .truncated

/-- The second half of a character that is written as a pair of sixteen-bit units. -/
def lowSurrogate : Reader Nat
  | [] => .error .truncated
  | [c] => if c = '\\' then .error .truncated else .error .malformed
  | c :: d :: rest =>
    if c = '\\' ∧ d = 'u' then do
      let (n, rest) ← quad rest
      if 0xDC00 ≤ n ∧ n ≤ 0xDFFF then return (n, rest) else .error .malformed
    else .error .malformed

/-- A character written as one or two sixteen-bit units, after the mark. -/
def unicodeEscape (cs : List Char) : Except ReadError (Char × List Char) := do
  let (n, rest) ← quad cs
  if 0xDC00 ≤ n ∧ n ≤ 0xDFFF then .error .malformed
  else if 0xD800 ≤ n ∧ n ≤ 0xDBFF then
    let (low, rest) ← lowSurrogate rest
    return (Char.ofNat (0x10000 + 0x400 * (n - 0xD800) + (low - 0xDC00)), rest)
  else return (Char.ofNat n, rest)

def escape : Reader Char
  | [] => .error .truncated
  | c :: rest =>
    if c = '"' then .ok ('"', rest)
    else if c = '\\' then .ok ('\\', rest)
    else if c = '/' then .ok ('/', rest)
    else if c = 'b' then .ok ('\x08', rest)
    else if c = 'f' then .ok ('\x0c', rest)
    else if c = 'n' then .ok ('\n', rest)
    else if c = 'r' then .ok ('\r', rest)
    else if c = 't' then .ok ('\t', rest)
    else if c = 'u' then unicodeEscape rest
    else .error .malformed

/-- A character after a backslash, without asking which character it is. -/
def skipEscape : Reader Unit
  | [] => .error .truncated
  | c :: rest =>
    if c ∈ ['"', '\\', '/', 'b', 'f', 'n', 'r', 't'] then .ok ((), rest)
    else if c = 'u' then (quad rest).map fun r => ((), r.2)
    else .error .malformed

/-- The rest of a string after its opening quote, `kept` holding what was read in reverse. The
escapes are read by `unescape`, and `fuel` bounds the number of characters. -/
def stringRest (unescape : Reader α) (keep : α → List Char → List Char) :
    Nat → List Char → Reader (List Char)
  | 0, _, _ => .error .truncated
  | _ + 1, _, [] => .error .truncated
  | fuel + 1, kept, c :: rest =>
    if c = '"' then .ok (kept.reverse, rest)
    else if c = '\\' then do
      let (d, rest) ← unescape rest
      stringRest unescape keep fuel (keep d kept) rest
    else if c.toNat < 0x20 then .error .malformed
    else stringRest unescape keep fuel (c :: kept) rest

def string : Reader String := fun cs => do
  let (chars, rest) ← stringRest escape List.cons (cs.length + 1) [] cs
  return (String.ofList chars, rest)

/-- A string after its opening quote that is only checked for its form. -/
def skipString : Reader Unit := fun cs =>
  (stringRest skipEscape (fun _ kept => kept) (cs.length + 1) [] cs).map fun r => ((), r.2)

/-! ### Words and scalars -/

def word : List Char → Reader Unit
  | [], cs => .ok ((), cs)
  | _ :: _, [] => .error .truncated
  | d :: ds, c :: cs => if c = d then word ds cs else .error .malformed

/-- A value that is not a container, its first character being the first one given. -/
def scalar : Reader Json
  | [] => .error .truncated
  | 'n' :: rest => (word ['u', 'l', 'l'] rest).map fun r => (.null, r.2)
  | 't' :: rest => (word ['r', 'u', 'e'] rest).map fun r => (.bool true, r.2)
  | 'f' :: rest => (word ['a', 'l', 's', 'e'] rest).map fun r => (.bool false, r.2)
  | '"' :: rest => (string rest).map fun r => (.text r.1, r.2)
  | c :: rest =>
    if c = '-' ∨ c.isDigit then (Number.read (c :: rest)).map fun r => (.number r.1, r.2)
    else .error .malformed

/-- How a value of another kind than the one asked for is refused: a scalar is read first, and may
be at fault itself. -/
def wrongKind : List Char → ReadError
  | [] => .truncated
  | c :: rest =>
    if c = '[' ∨ c = '{' then .mismatch
    else
      match scalar (c :: rest) with
      | .error e => e
      | .ok _ => .mismatch

/-! ### Containers -/

/-- The items of an array that follow `kept`, up to the closing bracket, which is left in place. -/
def itemsRest (item : Reader α) : Nat → List α → Reader (List α)
  | 0, _, _ => .error .truncated
  | fuel + 1, kept, cs =>
    match skipSpace cs with
    | [] => .error .truncated
    | ']' :: rest => .ok (kept.reverse, ']' :: rest)
    | ',' :: rest =>
      match skipSpace rest with
      | [] => .error .truncated
      | ']' :: _ => .error .malformed
      | rest => do
        let (x, rest) ← item rest
        itemsRest item fuel (x :: kept) rest
    | _ => .error .malformed

/-- The items of an array after its opening bracket, and the closing bracket. -/
def items (item : Reader α) : Reader (List α) := fun cs =>
  match skipSpace cs with
  | [] => .error .truncated
  | ']' :: rest => .ok ([], rest)
  | rest => do
    let (x, rest) ← item rest
    let (xs, rest) ← itemsRest item (rest.length + 1) [x] rest
    return (xs, rest.drop 1)

def afterColon (value : Reader α) : Reader α := fun cs =>
  match skipSpace cs with
  | [] => .error .truncated
  | ':' :: rest => value rest
  | _ => .error .malformed

/-- The fields of an object that follow those in `state`, up to the closing brace, which is left in
place. A field is read by `field` from its name, what was read before, and the characters after the
name. -/
def membersRest (field : String → σ → Reader σ) : Nat → σ → Reader σ
  | 0, _, _ => .error .truncated
  | fuel + 1, state, cs =>
    match skipSpace cs with
    | [] => .error .truncated
    | '}' :: rest => .ok (state, '}' :: rest)
    | ',' :: rest =>
      match skipSpace rest with
      | [] => .error .truncated
      | '"' :: rest => do
        let (name, rest) ← string rest
        let (state, rest) ← field name state rest
        membersRest field fuel state rest
      | _ => .error .malformed
    | _ => .error .malformed

/-- The fields of an object after its opening brace, up to the closing brace, which is left in
place. -/
def members (field : String → σ → Reader σ) (start : σ) : Reader σ := fun cs =>
  match skipSpace cs with
  | [] => .error .truncated
  | '}' :: rest => .ok (start, '}' :: rest)
  | '"' :: rest => do
    let (name, rest) ← string rest
    let (state, rest) ← field name start rest
    membersRest field (rest.length + 1) state rest
  | _ => .error .malformed

/-- The closing brace that `members` leaves. -/
def closeBrace : Reader Unit := fun cs =>
  match skipSpace cs with
  | [] => .error .truncated
  | '}' :: rest => .ok ((), rest)
  | _ => .error .malformed

/-- The closing bracket of an array whose number of items is fixed. Whatever stands in its place, a
comma included, is malformed. -/
def closeBracket : Reader Unit := fun cs =>
  match skipSpace cs with
  | [] => .error .truncated
  | ']' :: rest => .ok ((), rest)
  | _ => .error .malformed

/-- Any value, with room for `depth` more containers around each other. A name that occurs twice has
the value that came last. -/
def value : Nat → Reader Json
  | 0 => fun cs =>
    match skipSpace cs with
    | '[' :: _ => .error .malformed
    | '{' :: _ => .error .malformed
    | cs => scalar cs
  | depth + 1 => fun cs =>
    match skipSpace cs with
    | '[' :: rest => do
      let (xs, rest) ← items (value depth) rest
      return (.array xs, rest)
    | '{' :: rest => do
      let keep (name : String) (fields : Fields) : Reader Fields := fun cs => do
        let (x, rest) ← afterColon (value depth) cs
        return (fields.insert name x, rest)
      let (fields, rest) ← members keep [] rest
      return (.object fields, rest.drop 1)
    | cs => scalar cs

/-- A number that is only checked for its form; one that ends too early is malformed here. -/
def skipNumber (cs : List Char) : Except ReadError (Unit × List Char) :=
  let digitsAfter (cs : List Char) : Except ReadError (List Char) :=
    if cs.head?.any Char.isDigit then .ok (cs.dropWhile Char.isDigit) else .error .malformed
  let exponent (cs : List Char) : Except ReadError (Unit × List Char) :=
    match cs with
    | [] => .ok ((), [])
    | c :: rest =>
      if c = 'e' ∨ c = 'E' then
        match rest with
        | '+' :: rest => (digitsAfter rest).map fun r => ((), r)
        | '-' :: rest => (digitsAfter rest).map fun r => ((), r)
        | rest => (digitsAfter rest).map fun r => ((), r)
      else .ok ((), c :: rest)
  let unsigned :=
    match cs with
    | '-' :: rest => rest
    | rest => rest
  match unsigned with
  | [] => .error .malformed
  | first :: rest =>
    if first = '0' ∧ rest.head?.any Char.isDigit then .error .malformed
    else if first.isDigit then
      match rest.dropWhile Char.isDigit with
      | '.' :: rest => digitsAfter rest >>= exponent
      | rest => exponent rest
    else .error .malformed

/-- Any value that is only checked for its form, with room for `depth` more containers. -/
def skipValue : Nat → Reader Unit
  | 0 => fun _ => .error .truncated
  | depth + 1 => fun cs =>
    match skipSpace cs with
    | '[' :: rest => do
      let (_, rest) ← items (skipValue depth) rest
      return ((), rest)
    | '{' :: rest => do
      let (_, rest) ← skipMembers (skipValue depth) (rest.length + 1) true rest
      return ((), rest)
    | '"' :: rest => skipString rest
    | c :: rest =>
      if c = '-' ∨ c.isDigit then skipNumber (c :: rest)
      else (scalar (c :: rest)).map fun r => ((), r.2)
    | [] => .error .truncated
where
  /-- The fields of an object and its closing brace; `first` says that no field was read yet. -/
  skipMembers (value : Reader Unit) : Nat → Bool → Reader Unit
    | 0, _, _ => .error .truncated
    | fuel + 1, first, cs =>
      let field (cs : List Char) : Except ReadError (Unit × List Char) := do
        let (_, rest) ← skipString cs
        let (_, rest) ← afterColon value rest
        skipMembers value fuel false rest
      match skipSpace cs with
      | [] => .error .truncated
      | '}' :: rest => .ok ((), rest)
      | c :: rest =>
        if first then if c = '"' then field rest else .error .malformed
        else if c = ',' then
          match skipSpace rest with
          | [] => .error .truncated
          | '"' :: rest => field rest
          | _ => .error .malformed
        else .error .malformed

/-- Any value that is only checked for its form. A container takes at least one character, so the
number of characters bounds the depth. -/
def skip : Reader Unit := fun cs =>
  skipValue (cs.length + 1) cs

/-! ### Values of a given kind -/

def text : Reader String := fun cs =>
  match skipSpace cs with
  | '"' :: rest => string rest
  | cs => .error (wrongKind cs)

def bool : Reader Bool := fun cs =>
  match skipSpace cs with
  | 't' :: rest => (word ['r', 'u', 'e'] rest).map fun r => (true, r.2)
  | 'f' :: rest => (word ['a', 'l', 's', 'e'] rest).map fun r => (false, r.2)
  | cs => .error (wrongKind cs)

/-- An integer within bounds, both ends included. -/
def integer (least greatest : Int) : Reader Int := fun cs =>
  match skipSpace cs with
  | [] => .error .truncated
  | c :: rest =>
    if c = '-' ∨ c.isDigit then do
      let (n, rest) ← Number.read (c :: rest)
      match n with
      | .int n => if least ≤ n ∧ n ≤ greatest then return (n, rest) else .error .mismatch
      | .float _ => .error .mismatch
    else .error (wrongKind (c :: rest))

def natural (greatest : Nat) : Reader Nat := fun cs => do
  let (n, rest) ← integer 0 greatest cs
  return (n.toNat, rest)

/-- A value, or nothing where the text says `null`. -/
def nullable (value : Reader α) : Reader (Option α) := fun cs =>
  match skipSpace cs with
  | 'n' :: rest => (word ['u', 'l', 'l'] rest).map fun r => (none, r.2)
  | cs => (value cs).map fun r => (some r.1, r.2)

/-- An array of values of one kind, with room for `depth` more containers, itself included. -/
def list (depth : Nat) (item : Nat → Reader α) : Reader (List α) := fun cs =>
  match depth, skipSpace cs with
  | depth + 1, '[' :: rest => items (item depth) rest
  | 0, '[' :: _ => .error .malformed
  | _, cs => .error (wrongKind cs)

/-- A whole text that holds one value and white space. -/
def document (value : Reader α) (s : String) : Except ReadError α := do
  let (x, rest) ← value s.toList
  match skipSpace rest with
  | [] => return x
  | _ => .error .malformed

end FleetConsole.Json.Read
