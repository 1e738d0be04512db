import FleetConsole.CommandLine.Invocation
import FleetConsole.Proofs.Except
import FleetConsole.Proofs.Text.Digits

/-!
# Flags

A flag is an option with its value, or a switch. It is written as one word, the value behind an
equals sign. Whatever the value is, the word is read as the flag on every level that knows it
(`readLevels_flag`), so words that are flags only add to what was given on their level.
-/

namespace FleetConsole.CommandLine

open Text

/-! ### Values -/

/-- The text of a value. -/
def Value.written : Value → String
  | text s => s
  | integer n => intText n
  | role r => r.name

/-- The values of a kind. -/
inductive Kind.Admits : Kind → Value → Prop
  | text (s : String) : Admits .text (.text s)
  | path {s : String} (hs : s ≠ "") : Admits .path (.text s)
  | integer {least greatest n : Int} (hleast : least ≤ n) (hgreatest : n ≤ greatest) :
      Admits (.integer least greatest) (.integer n)
  | role (r : Role) : Admits .role (.role r)

theorem Kind.read_written {kind : Kind} {value : Value} (hvalue : kind.Admits value) :
    kind.read value.written = .ok value := by
  cases hvalue with
  | text s => rfl
  | path hs =>
    have hnonempty : ¬(Value.text _).written.isEmpty = true := fun hempty =>
      hs (String.isEmpty_iff.1 hempty)
    rw [Kind.read, if_neg hnonempty]
    rfl
  | @integer least greatest n hleast hgreatest =>
    simp only [Kind.read, Value.written, int?_intText]
    rw [if_pos ⟨hleast, hgreatest⟩]
  | role r => cases r <;> rfl

/-! ### Flags and their words -/

/-- An option with its value, or a switch. -/
inductive Flag where
  | option (opt : Opt) (value : Value)
  | switch (switch : Switch)
  deriving DecidableEq, Repr

/-- The names of an option. -/
def Opt.names : Opt → List String
  | config => ["config"]
  | serverUrl => ["server-url"]
  | sessionToken => ["session-token", "token"]
  | sessionHeader => ["session-header"]
  | pageSize => ["page-size"]
  | limit => ["limit"]
  | offset => ["offset"]
  | text => ["text"]
  | id => ["id"]
  | out => ["out"]
  | role => ["role"]

/-- The name of a switch. -/
def Switch.name : Switch → String
  | unauthorized => "unauthorized"
  | json => "json"
  | yaml => "yaml"
  | wide => "wide"

/-- Whether an option can be given on any level. -/
def Opt.isGlobal : Opt → Bool
  | config | serverUrl | sessionToken | sessionHeader | pageSize => true
  | _ => false

namespace Flag

def names : Flag → List String
  | option opt _ => opt.names
  | switch s => [s.name]

/-- Whether a flag can be given on any level. A switch belongs to its command. -/
def isGlobal : Flag → Bool
  | option opt _ => opt.isGlobal
  | switch _ => false

/-- The characters of a flag under one of its names behind the two hyphens. -/
def chars (name : String) : Flag → List Char
  | option _ value => name.toList ++ '=' :: value.written.toList
  | switch _ => name.toList

/-- A flag under one of its names as a word. -/
def word (name : String) (flag : Flag) : String :=
  String.ofList ('-' :: '-' :: flag.chars name)

/-- Whether the value is of the kind that the option asks for. -/
def Fits : Flag → Prop
  | option opt value => opt.kind.Admits value
  | switch _ => True

end Flag

/-- Whether a flag may stand on a level. -/
def Level.Knows (level : Level) : Flag → Prop
  | .option opt _ => opt.isGlobal = true ∨ opt ∈ level.ownOptions.map Prod.snd
  | .switch s => s ∈ level.switches.map Prod.snd

namespace Given

/-- What was given, and one more flag. -/
def add (given : Given) : Flag → Given
  | .option opt value => { given with options := given.options ++ [(opt, value)] }
  | .switch s => { given with switches := given.switches ++ [s] }

/-- Whether a flag was not given yet. -/
def Lacks (given : Given) : Flag → Prop
  | .option opt _ => given.get? opt = none
  | .switch s => s ∉ given.switches

end Given

/-! ### Names on a level -/

variable {level : Level} {flag : Flag} {name : String}

theorem find?_globalOptions {opt : Opt} (hglobal : opt.isGlobal = true) (hname : name ∈ opt.names) :
    globalOptions.find? (fun o => o.1 = name) = some (name, opt) := by
  cases opt with
  | sessionToken =>
    simp only [Opt.names, List.mem_cons, List.not_mem_nil, or_false] at hname
    rcases hname with rfl | rfl <;> rfl
  | config | serverUrl | sessionHeader | pageSize =>
    cases List.mem_singleton.1 hname
    rfl
  | _ => cases hglobal

theorem option?_of_knows {opt : Opt} {value : Value} (hknows : level.Knows (.option opt value))
    (hname : name ∈ opt.names) : level.option? name = some opt := by
  -- A global option is found before the level is looked at; any other one tells its level.
  rcases hknows with hglobal | hown
  · rw [Level.option?, List.find?_append, find?_globalOptions hglobal hname]
    rfl
  · cases level <;> simp [Level.ownOptions] at hown
    all_goals
      rcases hown with rfl | rfl | rfl | rfl | rfl <;> cases List.mem_singleton.1 hname <;> rfl

theorem switch?_of_knows {s : Switch} (hknows : level.Knows (.switch s)) :
    level.option? s.name = none ∧ level.switch? s.name = some s := by
  cases level <;> simp [Level.Knows, Level.switches] at hknows
  · rcases hknows with rfl | rfl | rfl | rfl <;> exact ⟨rfl, rfl⟩
  · cases hknows
    exact ⟨rfl, rfl⟩

theorem name_plain (hname : name ∈ flag.names) :
    name ≠ "" ∧ name ≠ "help" ∧ name ≠ "version" ∧ '=' ∉ name.toList := by
  have hnames : ∀ opt : Opt, ∀ name ∈ opt.names,
      name ≠ "" ∧ name ≠ "help" ∧ name ≠ "version" ∧ '=' ∉ name.toList := by
    intro opt
    cases opt <;> decide
  cases flag with
  | option opt value => exact hnames opt name hname
  | switch s =>
    cases List.mem_singleton.1 hname
    cases s <;> decide

theorem child?_word (level : Level) (name : String) (flag : Flag) :
    level.child? (flag.word name) = none := by
  have hchildren : ∀ child ∈ level.children, child.1.toList.head? ≠ some '-' := by
    cases level <;> decide
  rw [Level.child?, Option.map_eq_none_iff, List.find?_eq_none]
  intro child hchild heq
  apply hchildren child hchild
  rw [of_decide_eq_true heq, Flag.word, String.toList_ofList]
  rfl

/-! ### Reading a word -/

theorem plain_of_not_mem {cs : List Char} (hcs : '=' ∉ cs) : ∀ c ∈ cs, decide (c ≠ '=') = true :=
  fun _ hc => decide_eq_true fun heq => hcs (heq ▸ hc)

theorem splitAssignment_option {cs : List Char} (hcs : '=' ∉ cs) (value : List Char) :
    splitAssignment (cs ++ '=' :: value) = (String.ofList cs, some (String.ofList value)) := by
  have hplain := plain_of_not_mem hcs
  rw [splitAssignment, List.takeWhile_append_of_pos hplain, List.dropWhile_append_of_pos hplain]
  simp

theorem splitAssignment_switch {cs : List Char} (hcs : '=' ∉ cs) :
    splitAssignment cs = (String.ofList cs, none) := by
  have hplain := plain_of_not_mem hcs
  rw [splitAssignment, List.takeWhile_eq_self_iff.2 hplain, List.dropWhile_eq_nil_iff.2 hplain]

theorem addOption_written {given : Given} {opt : Opt} {value : Value}
    (hvalue : opt.kind.Admits value) (hlacks : given.get? opt = none) :
    given.addOption opt (some value.written) = .ok (given.add (.option opt value)) := by
  simp only [Given.addOption, hlacks, Option.isSome_none, Bool.false_eq_true, if_false,
    Kind.read_written hvalue]
  rfl

theorem addSwitch_new {given : Given} {s : Switch} (hlacks : s ∉ given.switches) :
    given.addSwitch s = .ok (given.add (.switch s)) := by
  have hunseen : ¬given.switches.contains s = true := fun hseen =>
    hlacks (List.contains_iff_mem.1 hseen)
  rw [Given.addSwitch, if_neg hunseen]
  rfl

/-- A flag that was not given yet is read back. -/
theorem readLong_flag {given : Given} (hknows : level.Knows flag) (hname : name ∈ flag.names)
    (hfits : flag.Fits) (hlacks : given.Lacks flag) :
    readLong level { given } (flag.chars name) = .ok { given := given.add flag } := by
  obtain ⟨-, hhelp, hversion, hequals⟩ := name_plain hname
  cases flag with
  | option opt value =>
    rw [readLong, Flag.chars, splitAssignment_option hequals, String.ofList_toList,
      String.ofList_toList]
    simp only [hhelp, hversion, false_and, if_false, option?_of_knows hknows hname]
    exact bind_eq_ok.2 ⟨given, rfl, bind_eq_ok.2 ⟨_, addOption_written hfits hlacks, rfl⟩⟩
  | switch s =>
    cases List.mem_singleton.1 hname
    obtain ⟨hoption, hswitch⟩ := switch?_of_knows hknows
    rw [readLong, Flag.chars, splitAssignment_switch hequals, String.ofList_toList]
    simp only [hhelp, hversion, false_and, if_false, hoption, hswitch, Option.isSome_none,
      Bool.false_eq_true]
    exact bind_eq_ok.2 ⟨given, rfl, bind_eq_ok.2 ⟨_, addSwitch_new hlacks, rfl⟩⟩

theorem classify_flag (hname : name ∈ flag.names) :
    Word.classify level false (flag.word name) = .long (flag.chars name) := by
  have hne : flag.chars name ≠ [] := by
    have hempty := (name_plain hname).1
    cases flag <;> simp [Flag.chars, hempty]
  rw [Word.classify, child?_word, Flag.word, String.toList_ofList]
  simp [hne]

/-- The word of a flag adds the flag to what was given on the level. -/
theorem readLevels_flag {given : Given} (hknows : level.Knows flag) (hname : name ∈ flag.names)
    (hfits : flag.Fits) (hlacks : given.Lacks flag) (words : List String) :
    readLevels level { given } false (flag.word name :: words) =
      readLevels level { given := given.add flag } false words := by
  have hawaits : ({ given } : Scan).awaitsValue = false := rfl
  rw [readLevels, if_neg Bool.false_ne_true, hawaits, classify_flag hname]
  simp only [readLong_flag hknows hname hfits hlacks]
  rfl

/-- The name of a subcommand begins its level and ends the one around it. -/
theorem readLevels_child {given : Given} {child : Level} (hchild : level.child? name = some child)
    (words : List String) : readLevels level { given } false (name :: words) = do
      let inner ← readLevels child {} false words
      checkLevel level given true
      return (level, given) :: inner := by
  have hclassify : Word.classify level false name = .subcommand child := by
    rw [Word.classify, if_neg Bool.false_ne_true, hchild]
  have hawaits : ({ given } : Scan).awaitsValue = false := rfl
  rw [readLevels, if_neg Bool.false_ne_true, hawaits, hclassify]
  rfl

end FleetConsole.CommandLine
