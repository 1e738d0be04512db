import FleetConsole.Json.Read

/-!
# Reading records

A record is an object whose fields have known names, each of which may occur once; an occurrence
that repeats is refused as soon as its name is read. Most records may also be written as the array
of their fields in order, where fields at the end may be left out if the record can do without them.
-/

namespace FleetConsole.Json.Read

def int64 : Reader Int := integer (-(Nat.pow 2 63 : Int)) (Nat.pow 2 63 - 1)

def nat64 : Reader Nat := natural (Nat.pow 2 64 - 1)

/-- The value of a field that may occur once; `seen` is what an earlier occurrence gave. -/
def once (seen : Option α) (value : Reader α) (keep : α → σ) : Reader σ := fun cs =>
  if seen.isSome then .error .mismatch
  else (afterColon value cs).map fun r => (keep r.1, r.2)

def ignored (state : σ) : Reader σ := fun cs =>
  (afterColon skip cs).map fun r => (state, r.2)

def required : Option α → Except ReadError α
  | some x => .ok x
  | none => .error .mismatch

/-- The next item of an array, or nothing in front of the closing bracket, which is left in place.
-/
def nextItem (first : Bool) (item : Reader α) : Reader (Option α) := fun cs =>
  let present (cs : List Char) := (item cs).map fun r => (some r.1, r.2)
  match skipSpace cs with
  | [] => .error .truncated
  | c :: rest =>
    if c = ']' then .ok (none, c :: rest)
    else if first then present (c :: rest)
    else if c = ',' then
      match skipSpace rest with
      | [] => .error .truncated
      | ']' :: _ => .error .malformed
      | rest => present rest
    else .error .malformed

/-- A record that is an object. Its reader gets the levels left inside and the characters after the
opening brace, and leaves the closing one. -/
def object (depth : Nat) (fields : Nat → Reader α) : Reader α := fun cs =>
  match depth, skipSpace cs with
  | depth + 1, '{' :: rest => do
    let (x, rest) ← fields depth rest
    let (_, rest) ← closeBrace rest
    return (x, rest)
  | 0, '{' :: _ => .error .malformed
  | _, cs => .error (wrongKind cs)

/-- A record that is an object or the array of its fields. -/
def record (depth : Nat) (fields : Nat → Reader α) (items : Nat → Reader α) : Reader α := fun cs =>
  match depth, skipSpace cs with
  | depth + 1, '[' :: rest => do
    let (x, rest) ← items depth rest
    let (_, rest) ← closeBracket rest
    return (x, rest)
  | 0, '[' :: _ => .error .malformed
  | depth, cs => object depth fields cs

/-- A record whose only field is a text. -/
def soleText (name : String) (depth : Nat) : Reader String :=
  let field (other : String) (seen : Option String) : Reader (Option String) :=
    if other = name then once seen text some else ignored seen
  let fields (_ : Nat) : Reader String := fun cs => do
    let (seen, rest) ← members field none cs
    return (← required seen, rest)
  let items (_ : Nat) : Reader String := fun cs => do
    let (seen, rest) ← nextItem true text cs
    return (← required seen, rest)
  record depth fields items

end FleetConsole.Json.Read
