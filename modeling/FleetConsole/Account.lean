import FleetConsole.Json.Record
import FleetConsole.Json.Write

/-!
# Users and roles

The user who is signed in, with the role that decides what the menu offers. A role is written as its
name; it is also read from an object with the name as its only field and no value.
-/

namespace FleetConsole

open Json Json.Read

/-- What a user may do. -/
inductive Role where
  | superAdmin
  | admin
  | readOnly
  deriving DecidableEq, Repr, Inhabited

namespace Role

def name : Role → String
  | superAdmin => "super-admin"
  | admin => "admin"
  | readOnly => "read-only"

def all : List Role := [superAdmin, admin, readOnly]

def ofName? (name : String) : Option Role :=
  all.find? fun role => role.name = name

def readName : Reader Role := fun cs => do
  let (s, rest) ← Read.text cs
  match ofName? s with
  | some role => return (role, rest)
  | none => .error .mismatch

/-- The absent value of a field. -/
def readNull : Reader Unit := fun cs =>
  match skipSpace cs with
  | 'n' :: rest => word ['u', 'l', 'l'] rest
  | cs => .error (wrongKind cs)

/-- A role, with room for `depth` containers, itself included. -/
def read (depth : Nat) : Reader Role := fun cs =>
  match depth, skipSpace cs with
  | _, [] => .error .truncated
  | _, '"' :: rest => readName ('"' :: rest)
  | 0, '{' :: _ => .error .malformed
  | _ + 1, '{' :: rest => do
    let (role, rest) ← readName rest
    let (_, rest) ← afterColon readNull rest
    let (_, rest) ← closeBrace rest
    return (role, rest)
  | _, _ => .error .malformed

def toJson (role : Role) : Json := .text role.name

end Role

structure User where
  id : Int
  login : String
  role : Role
  deriving DecidableEq, Repr, Inhabited

namespace User

/-- The parts of a user as far as they have been read. -/
structure Draft where
  id : Option Int := none
  login : Option String := none
  role : Option Role := none

def Draft.toUser (draft : Draft) : Except ReadError User := do
  return ⟨← required draft.id, ← required draft.login, ← required draft.role⟩

def readField (depth : Nat) (name : String) (draft : Draft) : Reader Draft :=
  match name with
  | "id" => once draft.id int64 fun x => { draft with id := some x }
  | "login" => once draft.login Read.text fun x => { draft with login := some x }
  | "role" => once draft.role (Role.read depth) fun x => { draft with role := some x }
  | _ => ignored draft

/-- The parts of a user in order. -/
def readItems (depth : Nat) : Reader User := fun cs => do
  let (id, rest) ← nextItem true int64 cs
  let id ← required id
  let (login, rest) ← nextItem false Read.text rest
  let login ← required login
  let (role, rest) ← nextItem false (Role.read depth) rest
  return (⟨id, login, ← required role⟩, rest)

/-- A user, with room for `depth` containers, itself included. -/
def read (depth : Nat) : Reader User :=
  let fields (depth : Nat) : Reader User := fun cs => do
    let (draft, rest) ← members (readField depth) {} cs
    return (← draft.toUser, rest)
  record depth fields readItems

def toJson (user : User) : Json :=
  .object [("id", Json.ofInt user.id), ("login", .text user.login), ("role", user.role.toJson)]

end User

end FleetConsole
