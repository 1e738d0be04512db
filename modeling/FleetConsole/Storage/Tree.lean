import FleetConsole.Text.Blank
import FleetConsole.Text.Digits

/-!
# Files and directories

A tree of directories and files as far as storing a file needs it: finding a place by a path, making
a directory, and putting, reading and renaming files. A place is the list of names on the way to it
from the root; a path is resolved step by step from the root or from the working directory, and
every step but the last has to be a directory. Each way in which a step can fail is a fault of its
own, with the text that the operating system has for it.
-/

namespace FleetConsole.Storage

open Text

abbrev Bytes := List UInt8

/-- The names on the way from the root. -/
abbrev Place := List String

/-- Why a step on the tree failed. -/
inductive Fault where
  | notFound
  | exists
  | notDirectory
  | isDirectory
  | invalid
  | nameTooLong
  | nulByte
  | other (text : String)
  deriving DecidableEq, Repr, Inhabited

def Fault.text : Fault → String
  | notFound => "No such file or directory (os error 2)"
  | .exists => "File exists (os error 17)"
  | notDirectory => "Not a directory (os error 20)"
  | isDirectory => "Is a directory (os error 21)"
  | invalid => "Invalid argument (os error 22)"
  | nameTooLong => "File name too long (os error 36)"
  | nulByte => "file name contained an unexpected NUL byte"
  | other text => text

/-! ### Paths -/

/-- A path as written: whether it begins at the root, and the names in it. -/
structure Path where
  absolute : Bool
  names : List String
  deriving DecidableEq, Repr, Inhabited

namespace Path

/-- The path of a text. Slashes that follow each other count once. -/
def ofText (s : String) : Path :=
  ⟨s.toList.head? = some '/',
    ((splitChars (· = '/') s.toList).map String.ofList).filter fun name => !name.isEmpty⟩

def join (dir name : String) : String :=
  if dir.isEmpty || dir.toList.getLast? = some '/' then dir ++ name else dir ++ "/" ++ name

/-- The path without the dots at its end, which stand for the directory before them. A dot at the
beginning of a relative path stays. -/
def dropDots (path : Path) : Path :=
  let kept := (path.names.reverse.dropWhile (· = ".")).reverse
  if kept.isEmpty && !path.absolute && !path.names.isEmpty then { path with names := ["."] }
  else { path with names := kept }

def parent? (path : Path) : Option Path :=
  let path := path.dropDots
  if path.names.isEmpty then none
  else
    let shorter : Path := { path with names := path.names.dropLast }
    some (if shorter.names.isEmpty then shorter else shorter.dropDots)

end Path

def longestName : Nat := 255

def longestPath : Nat := 4095

/-! ### The tree -/

/-- Directories and files by their places; the root is always a directory. -/
structure Tree where
  directories : List Place := []
  files : List (Place × Bytes) := []
  /-- The working directory. -/
  here : Place := []
  deriving Repr, Inhabited

namespace Tree

def isDirectory (t : Tree) (place : Place) : Bool :=
  place.isEmpty || t.directories.contains place

def read? (t : Tree) (place : Place) : Option Bytes :=
  (t.files.find? fun file => file.1 = place).map Prod.snd

def isTaken (t : Tree) (place : Place) : Bool :=
  t.isDirectory place || (t.read? place).isSome

def addDirectory (t : Tree) (place : Place) : Tree :=
  if t.isDirectory place then t else { t with directories := t.directories ++ [place] }

def remove (t : Tree) (place : Place) : Tree :=
  { t with files := t.files.filter fun file => file.1 ≠ place }

/-- The tree with a file at a place, in place of the one that was there. -/
def put (t : Tree) (place : Place) (bytes : Bytes) : Tree :=
  { t with files := (t.remove place).files ++ [(place, bytes)] }

/-- The directory that names lead to. -/
def walk (t : Tree) (place : Place) : List String → Except Fault Place
  | [] => .ok place
  | name :: names =>
    if name = "." then walk t place names
    else if name = ".." then walk t place.dropLast names
    else if longestName < name.utf8ByteSize then .error .nameTooLong
    else if t.isDirectory (place ++ [name]) then walk t (place ++ [name]) names
    else if (t.read? (place ++ [name])).isSome then .error .notDirectory
    else .error .notFound

def start (t : Tree) (path : Path) : Place :=
  if path.absolute then [] else t.here

def directory (t : Tree) (path : Path) : Except Fault Place :=
  t.walk (t.start path) path.names

def hasDirectory (t : Tree) (path : Path) : Bool :=
  match t.directory path with
  | .ok _ => true
  | .error _ => false

/-- The content of the file at a path given as text. A path that ends in a slash or in dots is that
of a directory. -/
def readPath? (t : Tree) (s : String) : Option Bytes :=
  let path := Path.ofText s
  match path.names.getLast?, t.directory { path with names := path.names.dropLast } with
  | some name, .ok dir =>
    if s.toList.getLast? = some '/' ∨ name = "." ∨ name = ".." then none
    else t.read? (dir ++ [name])
  | _, _ => none

/-- One directory is made; those on the way to it must be there. -/
def makeDirectory (t : Tree) (path : Path) : Except Fault Tree :=
  match path.names.getLast? with
  | none => .error (if path.absolute then .exists else .notFound)
  | some name => do
    let parent ← t.directory { path with names := path.names.dropLast }
    if name = "." ∨ name = ".." then .error .exists
    else if longestName < name.utf8ByteSize then .error .nameTooLong
    else if t.isTaken (parent ++ [name]) then .error .exists
    else return t.addDirectory (parent ++ [name])

/-- A directory is made, with those on the way to it that are missing; it may be there already.
Every round takes one name off the path, so `fuel` is the number of names. The tree is returned also
on a fault, since some of the directories may have been made. -/
def makeDirectories (t : Tree) : Nat → Path → Except Fault Unit × Tree
  | fuel, path =>
    if path.names.isEmpty && !path.absolute then (.ok (), t)
    else
      match t.makeDirectory path with
      | .ok t => (.ok (), t)
      | .error .notFound =>
        match fuel, path.parent? with
        | fuel + 1, some parent =>
          match makeDirectories t fuel parent with
          | (.ok _, t) =>
            match t.makeDirectory path with
            | .ok t => (.ok (), t)
            | .error fault => (if t.hasDirectory path then .ok () else .error fault, t)
          | (.error fault, t) => (.error fault, t)
        | _, _ => (.error (.other "failed to create whole tree"), t)
      | .error fault => (if t.hasDirectory path then .ok () else .error fault, t)

/-- A directory at a path given as text. -/
def ensureDirectory (t : Tree) (s : String) : Except Fault Unit × Tree :=
  if s.toList.contains '\x00' then (.error .nulByte, t)
  else if longestPath < s.utf8ByteSize then (.error .nameTooLong, t)
  else
    let path := Path.ofText s
    t.makeDirectories path.names.length path

/-- A file in a directory gets another name there. A file of that name is replaced, a directory is
not. -/
def rename (t : Tree) (dir : Place) (old new : String) : Except Fault Tree :=
  if new.toList.contains '\x00' then .error .invalid
  else if longestName < new.utf8ByteSize then .error .nameTooLong
  else if t.isDirectory (dir ++ [new]) then .error .isDirectory
  else
    match t.read? (dir ++ [old]) with
    | none => .error .notFound
    | some bytes => .ok ((t.remove (dir ++ [old])).put (dir ++ [new]) bytes)

/-- The names that begin with a text and end in a number, in order. -/
def numberedName (start : String) (n : Nat) : String := start ++ natText n

/-- The first numbered name that is free in a directory. One of as many names as there are files,
one of as many as there are directories, and one more is always free. -/
def freeName (t : Tree) (dir : Place) (start : String) : String :=
  let count := t.files.length + t.directories.length + 1
  let free := (List.range count).find? fun n => !t.isTaken (dir ++ [numberedName start n])
  numberedName start (free.getD count)

/-- The tree with a file at a path, and the directories on the way to it. -/
def plant (t : Tree) (s : String) (bytes : Bytes) : Tree :=
  let path := Path.ofText s
  let dir := { path with names := path.names.dropLast }
  let t := (t.makeDirectories path.names.length dir).2
  match t.directory dir, path.names.getLast? with
  | .ok place, some name => t.put (place ++ [name]) bytes
  | _, _ => t

end Tree

end FleetConsole.Storage
