import FleetConsole.Dump.Name
import FleetConsole.Failure
import FleetConsole.Storage.Tree

/-!
# Storing dumps

A dump is written to a temporary file in its directory and renamed when it is complete, so nobody
ever sees a part of it. Every step may fail; the temporary file is then removed again, and the files
are as they were. Faults that the tree itself does not cause are an argument, such as a full disk,
or the path of a dump that is too long as a whole.
-/

namespace FleetConsole.Dump

open Storage

inductive Step where
  | createDirectory
  | createTemporary
  | write
  | sync
  | rename
  deriving DecidableEq, Repr, Inhabited

/-- For each step, the fault that strikes it from outside, if any. -/
abbrev Interference := Step → Option Fault

def Interference.none : Interference := fun _ => Option.none

/-- How the names of temporary files begin. -/
def temporaryStart : String := ".tmp"

/-- The path at which a dump is stored. -/
def target (dir : String) (artifact : Artifact) : String :=
  Path.join dir (safeName artifact.fileName artifact.machine)

/-- A step that the tree carries out unless it is struck. -/
def guarded (interference : Interference) (step : Step) (act : Except Fault α) : Except Fault α :=
  match interference step with
  | some fault => .error fault
  | Option.none => act

/-- The temporary file is filled and renamed, or removed again. -/
def fill (interference : Interference) (place : Place) (name : String) (bytes : Bytes) (t : Tree) :
    Except Fault Unit × Tree :=
  let temporary := t.freeName place temporaryStart
  let created := t.put (place ++ [temporary]) []
  let attempt : Except Fault Tree := do
    let written ← guarded interference .write (.ok (created.put (place ++ [temporary]) bytes))
    guarded interference .sync (.ok ())
    guarded interference .rename (written.rename place temporary name)
  match attempt with
  | .ok t => (.ok (), t)
  | .error fault => (.error fault, created.remove (place ++ [temporary]))

/-- A dump is stored in a directory: its path or the failure, and the tree afterwards. -/
def deliver (interference : Interference) (dir : String) (artifact : Artifact) (t : Tree) :
    Except Failure String × Tree :=
  let path := target dir artifact
  let name := safeName artifact.fileName artifact.machine
  let failed (fault : Fault) : Except Failure String := .error (.storage path fault.text)
  match interference .createDirectory with
  | some fault => (failed fault, t)
  | Option.none =>
    match t.ensureDirectory dir with
    | (.error fault, t) => (failed fault, t)
    | (.ok _, t) =>
      match guarded interference .createTemporary (t.directory (Path.ofText dir)) with
      | .error fault => (failed fault, t)
      | .ok place =>
        match fill interference place name artifact.bytes t with
        | (.ok _, t) => (.ok path, t)
        | (.error fault, t) => (failed fault, t)

end FleetConsole.Dump
