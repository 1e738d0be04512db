import FleetConsole.Toml.Scan

/-!
# TOML documents

A document is a sequence of statements: a key with its value, or the header of a table, which is the
place of the statements after it. The statements build a tree of tables, in which it matters how a
table came to be: by its own header, on the way to another header, or on the way of a key. A table
can have one header only, and a key with several parts only extends tables that such keys have made.

A text that breaks a rule is refused as a whole.
-/

namespace FleetConsole.Toml

/-! ### The tree of tables -/

/-- How a table came to be. -/
inductive Origin where
  | header
  | onTheWay
  | dotted
  deriving DecidableEq, Repr

/-- What a name stands for while the tree is built: a value, a table, or the tables of the headers
in double brackets, of which the last one is being filled. -/
inductive Node where
  | value (v : Value)
  | table (origin : Origin) (entries : List (String × Node))
  | tables (all : List (List (String × Node)))
  deriving Repr, Inhabited

abbrev Entries := List (String × Node)

namespace Entries

def get? (entries : Entries) (name : String) : Option Node :=
  (entries.find? fun entry => entry.1 = name).map Prod.snd

def set (entries : Entries) (name : String) (node : Node) : Entries :=
  if (entries.get? name).isSome then
    entries.map fun entry => if entry.1 = name then (name, node) else entry
  else entries ++ [(name, node)]

/-- A value put at a key, of which `path` holds the parts before the last one. -/
def insert? (name : String) (v : Value) : List String → Entries → Option Entries
  | [], entries =>
    if (entries.get? name).isSome then none else some (entries ++ [(name, .value v)])
  | part :: path, entries => do
    match entries.get? part with
    | none => return entries.set part (.table .dotted (← insert? name v path []))
    | some (.value _) => none
    | some (.table origin inner) =>
      if origin = .header ∨ (path.isEmpty ∧ origin ≠ .dotted) then none
      else return entries.set part (.table origin (← insert? name v path inner))
    | some (.tables all) =>
      if path.isEmpty then none
      else
        let last ← insert? name v path (← all.getLast?)
        return entries.set part (.tables (all.dropLast ++ [last]))

/-- The meaning of a header's name changed, `path` holding the parts before it. -/
def update? (name : String) (change : Option Node → Option Node) :
    List String → Entries → Option Entries
  | [], entries => do return entries.set name (← change (entries.get? name))
  | part :: path, entries => do
    match entries.get? part with
    | none => return entries.set part (.table .onTheWay (← update? name change path []))
    | some (.value _) => none
    | some (.table origin inner) =>
      return entries.set part (.table origin (← update? name change path inner))
    | some (.tables all) =>
      let last ← all.getLast?
      return entries.set part (.tables (all.dropLast ++ [← update? name change path last]))

end Entries

mutual

def Node.toValue : Node → Value
  | .value v => v
  | .table _ entries => .table (entriesToTable entries)
  | .tables all => .array (tablesToValues all)

def entriesToTable : List (String × Node) → List (String × Value)
  | [] => []
  | (name, node) :: entries => (name, node.toValue) :: entriesToTable entries

def tablesToValues : List (List (String × Node)) → List Value
  | [] => []
  | entries :: all => .table (entriesToTable entries) :: tablesToValues all

end

/-! ### Values -/

structure Assignment where
  path : List String
  name : String
  value : Value
  deriving Repr, Inhabited

/-- The values that assignments put into a table. -/
def assign? (assignments : List Assignment) (entries : Entries) : Option Entries :=
  assignments.foldlM (fun entries a => Entries.insert? a.name a.value a.path entries) entries

def assignment? (value : Scanner Value) (cs : List Char) : Option (Assignment × List Char) := do
  let (parts, cs) ← key? cs
  let (_, cs) ← mark? '=' cs
  let (v, cs) ← value (skipBlanks cs)
  return (⟨parts.dropLast, parts.getLast?.getD "", v⟩, cs)

/-- Items of an array after its opening bracket, and the closing one, at most as many as `fuel`. A
comma may stand before the closing bracket. -/
def items? (item : Scanner Value) : Nat → Scanner (List Value)
  | 0, _ => none
  | fuel + 1, cs =>
    match skipLines false cs with
    | ']' :: rest => some ([], rest)
    | cs => do
      let (x, rest) ← item cs
      match skipLines false rest with
      | ',' :: rest =>
        let (xs, rest) ← items? item fuel rest
        return (x :: xs, rest)
      | ']' :: rest => return ([x], rest)
      | _ => none

/-- Assignments up to a closing brace on the same line, at most as many as `fuel`. -/
def assignments? (value : Scanner Value) : Nat → Scanner (List Assignment)
  | 0, _ => none
  | fuel + 1, cs => do
    let (a, rest) ← assignment? value cs
    match skipBlanks rest with
    | ',' :: rest =>
      let (as, rest) ← assignments? value fuel rest
      return (a :: as, rest)
    | '}' :: rest => return ([a], rest)
    | _ => none

def inlineTable? (value : Scanner Value) (cs : List Char) : Option (Value × List Char) :=
  match skipBlanks cs with
  | '}' :: rest => some (.table [], rest)
  | cs => do
    let (assignments, rest) ← assignments? value cs.length cs
    let entries ← assign? assignments []
    return (.table (entriesToTable entries), rest)

def scalarValue? : Scanner Value
  | 't' :: 'r' :: 'u' :: 'e' :: cs => some (.bool true, cs)
  | 'f' :: 'a' :: 'l' :: 's' :: 'e' :: cs => some (.bool false, cs)
  | c :: cs =>
    if c = '"' ∨ c = '\'' then (text? (c :: cs)).map fun r => (.text r.1, r.2)
    else
      match dateTime? (c :: cs) with
      | some result => some result
      | none => number? (c :: cs)
  | [] => none

def depthLimit : Nat := 79

/-- A value, with room for `depth` more containers around each other. -/
def value? : Nat → Scanner Value
  | 0 => scalarValue?
  | depth + 1 => fun cs =>
    match cs with
    | '[' :: rest => (items? (value? depth) (rest.length + 1) rest).map fun r => (.array r.1, r.2)
    | '{' :: rest => inlineTable? (value? depth) rest
    | cs => scalarValue? cs

/-! ### Statements -/

/-- A line that says something. -/
inductive Statement where
  | assign (assignment : Assignment)
  | header (path : List String) (name : String)
  | listHeader (path : List String) (name : String)
  deriving Repr, Inhabited

/-- A header after its opening bracket. -/
def header? : Scanner Statement
  | '[' :: cs => do
    let (parts, cs) ← key? cs
    let (_, cs) ← mark? ']' cs
    let (_, cs) ← mark? ']' cs
    return (.listHeader parts.dropLast (parts.getLast?.getD ""), cs)
  | cs => do
    let (parts, cs) ← key? cs
    let (_, cs) ← mark? ']' cs
    return (.header parts.dropLast (parts.getLast?.getD ""), cs)

/-- The statements of a text, at most as many as `fuel`. -/
def statements? : Nat → List Char → Option (List Statement)
  | 0, _ => none
  | fuel + 1, cs =>
    match skipBlanks cs with
    | [] => some []
    | '\n' :: rest => statements? fuel rest
    | '#' :: rest => do statements? fuel (← nextLine? ('#' :: rest))
    | '[' :: rest => do
      let (statement, rest) ← header? rest
      let more ← statements? fuel (← nextLine? rest)
      return statement :: more
    | cs => do
      let (a, rest) ← assignment? (value? depthLimit) cs
      let more ← statements? fuel (← nextLine? rest)
      return .assign a :: more

/-- The assignments before the next header, and the statements from it on. -/
def takeAssignments : List Statement → List Assignment × List Statement
  | .assign a :: statements =>
    let (as, rest) := takeAssignments statements
    (a :: as, rest)
  | statements => ([], statements)

/-- The table that a header begins, filled by assignments, in place of what its name stood for. -/
def fillTable (assignments : List Assignment) : Option Node → Option Node
  | none => (assign? assignments []).map (.table .header)
  | some (.table .onTheWay entries) => (assign? assignments entries).map (.table .header)
  | some _ => none

/-- One more table of a header in double brackets. -/
def addTable (assignments : List Assignment) : Option Node → Option Node
  | none => (assign? assignments []).map fun entries => .tables [entries]
  | some (.tables all) => (assign? assignments []).map fun entries => .tables (all ++ [entries])
  | some _ => none

/-- The tree after headers and what stands under them, at most as many as `fuel`. -/
def build? : Nat → List Statement → Entries → Option Entries
  | 0, _, _ => none
  | fuel + 1, statements, root =>
    match statements with
    | [] => some root
    | .header path name :: rest => do
      let (assignments, rest) := takeAssignments rest
      build? fuel rest (← Entries.update? name (fillTable assignments) path root)
    | .listHeader path name :: rest => do
      let (assignments, rest) := takeAssignments rest
      build? fuel rest (← Entries.update? name (addTable assignments) path root)
    | .assign a :: rest => do build? fuel rest (← assign? [a] root)

/-- Characters without the mark of the byte order in front. -/
def dropByteOrderMark : List Char → List Char
  | '\uFEFF' :: cs => cs
  | cs => cs

/-- The table that a text describes, unless it is malformed. -/
def parse? (s : String) : Option Table := do
  let cs := unifyLineEnds (dropByteOrderMark s.toList)
  let statements ← statements? (cs.length + 1) cs
  let root ← build? (statements.length + 1) statements []
  return entriesToTable root

end FleetConsole.Toml
