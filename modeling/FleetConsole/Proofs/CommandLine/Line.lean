import FleetConsole.Proofs.CommandLine.Flag
import Mathlib.Data.List.Nodup
import Mathlib.Data.List.Perm.Basic

/-!
# Command lines as they are written

A command line for an invocation has the subcommands of its command in their order, and each of its
flags once (`Asks`). The flags stand in any order, those that are global anywhere and those of the
command behind its last subcommand. Reading follows the line piece by piece down to the level of the
command (`readLevels_line`). What was given on all levels together is what the line says, whatever
the order, and so the invocation is read back (`parse_line`).
-/

namespace FleetConsole.CommandLine

/-! ### What an invocation says -/

/-- The value of an option in the place of a page, with or without an offset of zero. -/
def Place.value? (withZero : Bool) (place : Place) : Opt → Option Value
  | .limit => place.limit.map fun n : Nat => .integer n
  | .offset => if place.offset = 0 ∧ withZero = false then none else some (.integer place.offset)
  | .text => place.text.map .text
  | _ => none

namespace Command

/-- The names of the subcommands that lead to a command. -/
def path : Command → List String
  | .listMachines _ _ _ => ["machines", "list"]
  | .dumpMachine _ _ _ => ["machines", "dump"]
  | .showToken => ["token", "show"]
  | .regenerateToken => ["token", "regenerate"]
  | .menu _ => ["menu"]

/-- The level to which they lead. -/
def level : Command → Level
  | .listMachines _ _ _ => .machinesList
  | .dumpMachine _ _ _ => .machinesDump
  | .showToken => .tokenShow
  | .regenerateToken => .tokenRegenerate
  | .menu _ => .menu

/-- The value of an option of its own. -/
def value? (withZero : Bool) : Command → Opt → Option Value
  | .listMachines place _ _, opt => Place.value? withZero place opt
  | .dumpMachine id _ _, .id => some (.integer id)
  | .dumpMachine _ _ out, .out => out.map .text
  | .dumpMachine _ place _, opt => Place.value? withZero place opt
  | .menu role, .role => role.map .role
  | _, _ => none

/-- Whether a switch is on. -/
def turnsOn : Command → Switch → Bool
  | .listMachines place _ _, .unauthorized => place.unauthorized
  | .listMachines _ output _, .json => output = .json
  | .listMachines _ output _, .yaml => output = .yaml
  | .listMachines _ _ wide, .wide => wide
  | .dumpMachine _ place _, .unauthorized => place.unauthorized
  | _, _ => false

end Command

namespace Invocation

/-- The value of an option. -/
def value? (withZero : Bool) (i : Invocation) : Opt → Option Value
  | .config => i.config.map .text
  | .serverUrl => i.overrides.serverUrl.map .text
  | .sessionToken => i.overrides.sessionToken.map .text
  | .sessionHeader => i.overrides.sessionHeader.map .text
  | .pageSize => i.overrides.pageSize.map fun n : Nat => .integer n
  | opt => Command.value? withZero i.command opt

/-- The flags of an invocation, with or without an offset of zero. -/
def flags (withZero : Bool) (i : Invocation) : List Flag :=
  [Opt.config, .serverUrl, .sessionToken, .sessionHeader, .pageSize, .limit, .offset, .text, .id,
      .out, .role].filterMap (fun opt => (value? withZero i opt).map (Flag.option opt))
    ++ ([Switch.unauthorized, .json, .yaml, .wide].filter (Command.turnsOn i.command)).map .switch

end Invocation

/-- The numbers of a place have at most 32 bits. -/
structure Place.Expressible (place : Place) : Prop where
  limit : ∀ n, place.limit = some n → n < Nat.pow 2 32
  offset : place.offset < Nat.pow 2 32

/-- The values of a command are within the bounds of their types, and a path is not empty. -/
def Command.Expressible : Command → Prop
  | .listMachines place _ _ => Place.Expressible place
  | .dumpMachine id place out => -(Nat.pow 2 63 : Int) ≤ id ∧ id < Nat.pow 2 63 ∧
      Place.Expressible place ∧ out ≠ some ""
  | _ => True

/-- What a command line can ask for. No flag names the directory of the dumps for all commands. -/
structure Invocation.Expressible (i : Invocation) : Prop where
  config : i.config ≠ some ""
  pageSize : ∀ n, i.overrides.pageSize = some n → n < Nat.pow 2 32
  dumpDir : i.overrides.dumpDir = none
  command : Command.Expressible i.command

/-! ### Lines -/

/-- A word of a command line. -/
inductive Piece where
  | subcommand (name : String)
  | flag (name : String) (f : Flag)
  deriving DecidableEq, Repr

namespace Piece

def word : Piece → String
  | subcommand name => name
  | flag name f => f.word name

def subcommand? : Piece → Option String
  | subcommand name => some name
  | flag _ _ => none

def flag? : Piece → Option Flag
  | subcommand _ => none
  | flag _ f => some f

/-- Whether a word is a flag of the command. -/
def isOwn : Piece → Bool
  | subcommand _ => false
  | flag _ f => !f.isGlobal

/-- Whether a flag stands under one of its names. -/
def isNamed : Piece → Bool
  | subcommand _ => true
  | flag name f => f.names.contains name

end Piece

/-- A line asks for an invocation. -/
structure Asks (line : List Piece) (i : Invocation) : Prop where
  path : line.filterMap Piece.subcommand? = Command.path i.command
  flags : ∃ withZero, (line.filterMap Piece.flag?).Perm (Invocation.flags withZero i)
  named : ∀ piece ∈ line, piece.isNamed = true
  placed : line.Pairwise fun earlier later => earlier.isOwn = true → later.subcommand? = none

/-! ### What was given -/

def Flag.option? : Flag → Option (Opt × Value)
  | option opt value => some (opt, value)
  | switch _ => none

def Flag.switch? : Flag → Option Switch
  | option _ _ => none
  | switch s => some s

/-- The options of a line with their values. -/
def options (line : List Piece) : List (Opt × Value) :=
  (line.filterMap Piece.flag?).filterMap Flag.option?

/-- The switches of a line. -/
def switches (line : List Piece) : List Switch :=
  (line.filterMap Piece.flag?).filterMap Flag.switch?

theorem get?_eq_none {given : Given} {opt : Opt} (hopt : opt ∉ given.options.map Prod.fst) :
    given.get? opt = none := by
  rw [Given.get?, Option.map_eq_none_iff, List.find?_eq_none]
  intro o ho heq
  exact hopt (of_decide_eq_true heq ▸ List.mem_map_of_mem ho)

theorem get?_eq_some_iff {given : Given} (hnodup : (given.options.map Prod.fst).Nodup) {opt : Opt}
    {value : Value} : given.get? opt = some value ↔ (opt, value) ∈ given.options := by
  constructor
  · intro hget
    obtain ⟨⟨found, _⟩, hfind, rfl⟩ := Option.map_eq_some_iff.1 hget
    have hfound := List.find?_some hfind
    rw [← of_decide_eq_true hfound]
    exact List.mem_of_find?_eq_some hfind
  · intro hmem
    cases hget : given.get? opt with
    | none =>
      rw [Given.get?, Option.map_eq_none_iff, List.find?_eq_none] at hget
      exact absurd (decide_eq_true rfl) (hget _ hmem)
    | some found =>
      obtain ⟨⟨other, _⟩, hfind, rfl⟩ := Option.map_eq_some_iff.1 hget
      have hother := List.find?_some hfind
      have hsame := List.inj_on_of_nodup_map hnodup (List.mem_of_find?_eq_some hfind) hmem
        (of_decide_eq_true hother)
      rw [hsame]

/-- Options of which each stands once give the values that stand there. -/
theorem get?_eq {given : Given} (hnodup : (given.options.map Prod.fst).Nodup) {opt : Opt}
    {said : Option Value} (hsaid : ∀ value, (opt, value) ∈ given.options ↔ said = some value) :
    given.get? opt = said :=
  Option.ext fun value => (get?_eq_some_iff hnodup).trans (hsaid value)

theorem mem_opts (opt : Opt) : opt ∈ [Opt.config, .serverUrl, .sessionToken, .sessionHeader,
    .pageSize, .limit, .offset, .text, .id, .out, .role] := by
  cases opt <;> decide

theorem mem_switches (s : Switch) : s ∈ [Switch.unauthorized, .json, .yaml, .wide] := by
  cases s <;> decide

section Said

variable {line : List Piece} {i : Invocation} {withZero : Bool}

theorem option_mem_flags {opt : Opt} {value : Value} :
    Flag.option opt value ∈ Invocation.flags withZero i ↔
      Invocation.value? withZero i opt = some value := by
  rw [Invocation.flags, List.mem_append, List.mem_filterMap]
  constructor
  · rintro (⟨found, -, hvalue⟩ | hswitch)
    · obtain ⟨_, hvalue, heq⟩ := Option.map_eq_some_iff.1 hvalue
      cases heq
      exact hvalue
    · obtain ⟨_, -, heq⟩ := List.mem_map.1 hswitch
      cases heq
  · exact fun hvalue => .inl ⟨opt, mem_opts opt, Option.map_eq_some_iff.2 ⟨value, hvalue, rfl⟩⟩

theorem switch_mem_flags {s : Switch} :
    Flag.switch s ∈ Invocation.flags withZero i ↔ Command.turnsOn i.command s = true := by
  rw [Invocation.flags, List.mem_append, List.mem_filterMap]
  constructor
  · rintro (⟨found, -, hvalue⟩ | hswitch)
    · obtain ⟨_, -, heq⟩ := Option.map_eq_some_iff.1 hvalue
      cases heq
    · obtain ⟨_, hmem, heq⟩ := List.mem_map.1 hswitch
      cases heq
      exact (List.mem_filter.1 hmem).2
  · exact fun hon => .inr (List.mem_map_of_mem (List.mem_filter.2 ⟨mem_switches s, hon⟩))

theorem mem_options {opt : Opt} {value : Value} :
    (opt, value) ∈ options line ↔ Flag.option opt value ∈ line.filterMap Piece.flag? := by
  rw [options, List.mem_filterMap]
  constructor
  · rintro ⟨f, hf, heq⟩
    cases f <;> cases heq
    exact hf
  · exact fun hf => ⟨_, hf, rfl⟩

theorem mem_switches_line {s : Switch} :
    s ∈ switches line ↔ Flag.switch s ∈ line.filterMap Piece.flag? := by
  rw [switches, List.mem_filterMap]
  constructor
  · rintro ⟨f, hf, heq⟩
    cases f <;> cases heq
    exact hf
  · exact fun hf => ⟨_, hf, rfl⟩

/-- The options that have a value, each once. -/
theorem keys_sublist (said : Opt → Option Value) (opts : List Opt) :
    (((opts.filterMap fun opt => (said opt).map (Flag.option opt)).filterMap Flag.option?).map
      Prod.fst).Sublist opts := by
  induction opts with
  | nil => exact .slnil
  | cons opt opts ih =>
    cases hsaid : said opt with
    | none => simpa [List.filterMap_cons, hsaid] using ih.cons opt
    | some value => simpa [List.filterMap_cons, hsaid, Flag.option?] using ih.cons_cons opt

theorem switches_optional (said : Opt → Option Value) (opts : List Opt) :
    (opts.filterMap fun opt => (said opt).map (Flag.option opt)).filterMap Flag.switch? = [] := by
  rw [List.filterMap_eq_nil_iff]
  intro f hf
  obtain ⟨opt, -, hsaid⟩ := List.mem_filterMap.1 hf
  obtain ⟨value, -, rfl⟩ := Option.map_eq_some_iff.1 hsaid
  rfl

theorem options_switched (ss : List Switch) :
    (ss.map Flag.switch).filterMap Flag.option? = [] := by
  simp [List.filterMap_map, Function.comp_def, Flag.option?]

theorem switches_switched (ss : List Switch) :
    (ss.map Flag.switch).filterMap Flag.switch? = ss := by
  simp [List.filterMap_map, Function.comp_def, Flag.switch?]

/-- In a line for an invocation each option and each switch stands once. -/
theorem Asks.nodup (hasks : Asks line i) :
    ((options line).map Prod.fst).Nodup ∧ (switches line).Nodup := by
  obtain ⟨withZero, hperm⟩ := hasks.flags
  constructor
  · rw [options, ((hperm.filterMap Flag.option?).map Prod.fst).nodup_iff, Invocation.flags,
      List.filterMap_append, options_switched, List.append_nil]
    exact (keys_sublist _ _).nodup (by decide)
  · rw [switches, (hperm.filterMap Flag.switch?).nodup_iff, Invocation.flags,
      List.filterMap_append, switches_optional, List.nil_append, switches_switched]
    exact List.filter_sublist.nodup (by decide)

end Said

/-! ### Reading a line -/

/-- The level to which names of subcommands lead. -/
def Level.below? (level : Level) : List String → Option Level
  | [] => some level
  | name :: names => (level.child? name).bind fun child => child.below? names

/-- A line that can follow what was given on a level, down to another one. -/
structure Continues (given : Given) (level leaf : Level) (line : List Piece) : Prop where
  leads : level.below? (line.filterMap Piece.subcommand?) = some leaf
  /-- Above the last level nothing of its own was given. -/
  above : line.filterMap Piece.subcommand? ≠ [] →
    (∀ o ∈ given.options, o.1.isGlobal = true) ∧ given.switches = []
  placed : line.Pairwise fun earlier later => earlier.isOwn = true → later.subcommand? = none
  flags : ∀ name f, .flag name f ∈ line → name ∈ f.names ∧ f.Fits ∧ leaf.Knows f
  options : ((given.options ++ options line).map Prod.fst).Nodup
  switches : (given.switches ++ switches line).Nodup

/-- The levels of a line, the last one apart: together they have all options in their order, and
the last one has all that is not global. -/
structure Divides (given : Given) (line : List Piece) (outer : List (Level × Given))
    (last : Given) : Prop where
  options : (outer.flatMap fun level => level.2.options) ++ last.options =
    given.options ++ options line
  switches : last.switches = given.switches ++ switches line
  above : ∀ o ∈ outer.flatMap fun level => level.2.options, o.1.isGlobal = true

section Reading

variable {given : Given} {level leaf : Level} {line : List Piece} {name : String} {f : Flag}

theorem options_flag : options (.flag name f :: line) = f.option?.toList ++ options line := by
  cases f <;> rfl

theorem switches_flag : switches (.flag name f :: line) = f.switch?.toList ++ switches line := by
  cases f <;> rfl

theorem options_add : (given.add f).options = given.options ++ f.option?.toList := by
  cases f <;> simp [Given.add, Flag.option?]

theorem switches_add : (given.add f).switches = given.switches ++ f.switch?.toList := by
  cases f <;> simp [Given.add, Flag.switch?]

namespace Continues

/-- Behind a flag of the command comes no further level. -/
theorem eq_leaf (hcontinues : Continues given level leaf (.flag name f :: line))
    (hown : f.isGlobal = false) :
    line.filterMap Piece.subcommand? = [] ∧ level = leaf := by
  have hnone : line.filterMap Piece.subcommand? = [] := by
    rw [List.filterMap_eq_nil_iff]
    intro later hlater
    apply (List.pairwise_cons.1 hcontinues.placed).1 later hlater
    rw [Piece.isOwn, hown]
    rfl
  have hleads := hcontinues.leads
  rw [List.filterMap_cons_none (by rfl), hnone] at hleads
  exact ⟨hnone, Option.some.inj hleads⟩

theorem knows (hcontinues : Continues given level leaf (.flag name f :: line)) :
    level.Knows f := by
  have hleaf := (hcontinues.flags name f List.mem_cons_self).2.2
  cases hglobal : f.isGlobal with
  | false => exact (hcontinues.eq_leaf hglobal).2 ▸ hleaf
  | true =>
    cases f with
    | option opt value => exact .inl hglobal
    | switch s => cases hglobal

theorem lacks (hcontinues : Continues given level leaf (.flag name f :: line)) :
    given.Lacks f := by
  cases f with
  | option opt value =>
    have hnodup := hcontinues.options
    rw [options_flag, List.map_append, List.nodup_append] at hnodup
    apply get?_eq_none
    intro hopt
    exact hnodup.2.2 opt hopt opt (by simp [Flag.option?]) rfl
  | switch s =>
    have hnodup := hcontinues.switches
    rw [switches_flag, List.nodup_append] at hnodup
    intro hs
    exact hnodup.2.2 s hs s (by simp [Flag.switch?]) rfl

theorem behind_flag (hcontinues : Continues given level leaf (.flag name f :: line)) :
    Continues (given.add f) level leaf line where
  leads := hcontinues.leads
  above hsome := by
    obtain ⟨hoptions, hswitches⟩ := hcontinues.above hsome
    have hglobal : f.isGlobal = true := by
      rw [← Bool.not_eq_false]
      exact fun hown => hsome (hcontinues.eq_leaf hown).1
    cases f with
    | option opt value =>
      refine ⟨fun o ho => ?_, hswitches⟩
      rcases List.mem_append.1 ho with ho | ho
      · exact hoptions o ho
      · cases List.mem_singleton.1 ho
        exact hglobal
    | switch s => cases hglobal
  placed := (List.pairwise_cons.1 hcontinues.placed).2
  flags name f hf := hcontinues.flags name f (List.mem_cons_of_mem _ hf)
  options := by
    rw [options_add, List.append_assoc, ← options_flag]
    exact hcontinues.options
  switches := by
    rw [switches_add, List.append_assoc, ← switches_flag]
    exact hcontinues.switches

theorem behind_subcommand (hcontinues : Continues given level leaf (.subcommand name :: line)) :
    ∃ child, level.child? name = some child ∧ Continues {} child leaf line := by
  obtain ⟨child, hchild, hleads⟩ := Option.bind_eq_some_iff.1 hcontinues.leads
  refine ⟨child, hchild, ⟨hleads, fun _ => ⟨fun o ho => absurd ho List.not_mem_nil, rfl⟩,
    (List.pairwise_cons.1 hcontinues.placed).2,
    fun name f hf => hcontinues.flags name f (List.mem_cons_of_mem _ hf), ?_, ?_⟩⟩
  · have hnodup := hcontinues.options
    rw [List.map_append] at hnodup
    exact hnodup.of_append_right
  · exact hcontinues.switches.of_append_right

end Continues

theorem checkLevel_above {child : Level} (hchild : level.child? name = some child)
    (hswitches : given.switches = []) : checkLevel level given true = .ok () := by
  have hdump : level ≠ .machinesDump := by
    rintro rfl
    cases hchild
  simp [checkLevel, hswitches, hdump]

/-- A line is read level by level, if what is given on the last one is complete. -/
theorem readLevels_line (hcontinues : Continues given level leaf line) :
    ∃ outer last, Divides given line outer last ∧
      (checkLevel leaf last false = .ok () → readLevels level { given } false
        (line.map Piece.word) = .ok (outer ++ [(leaf, last)])) := by
  -- A flag stays on its level and adds to what was given there; a subcommand leaves it behind.
  induction line generalizing given level with
  | nil =>
    cases Option.some.inj hcontinues.leads
    refine ⟨[], given, ⟨by simp [options], by simp [switches], by simp⟩, fun hcheck => ?_⟩
    exact bind_eq_ok.2 ⟨given, rfl, bind_eq_ok.2 ⟨(), hcheck, rfl⟩⟩
  | cons piece line ih =>
    cases piece with
    | flag name f =>
      obtain ⟨outer, last, hdivides, hread⟩ := ih hcontinues.behind_flag
      obtain ⟨hname, hfits, -⟩ := hcontinues.flags name f List.mem_cons_self
      refine ⟨outer, last, ⟨?_, ?_, hdivides.above⟩, fun hcheck => ?_⟩
      · rw [hdivides.options, options_add, options_flag, List.append_assoc]
      · rw [hdivides.switches, switches_add, switches_flag, List.append_assoc]
      · rw [List.map_cons, Piece.word,
          readLevels_flag hcontinues.knows hname hfits hcontinues.lacks]
        exact hread hcheck
    | subcommand name =>
      obtain ⟨child, hchild, hinner⟩ := hcontinues.behind_subcommand
      obtain ⟨outer, last, hdivides, hread⟩ := ih hinner
      obtain ⟨hoptions, hswitches⟩ := hcontinues.above (List.cons_ne_nil _ _)
      refine ⟨(level, given) :: outer, last, ⟨?_, ?_, ?_⟩, fun hcheck => ?_⟩
      · rw [List.flatMap_cons, List.append_assoc, hdivides.options]
        rfl
      · rw [hdivides.switches, hswitches]
        rfl
      · rw [List.flatMap_cons]
        exact List.forall_mem_append.2 ⟨hoptions, hdivides.above⟩
      · rw [List.map_cons, Piece.word, readLevels_child hchild]
        exact bind_eq_ok.2 ⟨_, hread hcheck,
          bind_eq_ok.2 ⟨(), checkLevel_above hchild hswitches, rfl⟩⟩

end Reading

/-! ### What was read -/

section Invocations

variable {line : List Piece} {i : Invocation} {withZero : Bool} {outer : List (Level × Given)}
  {last : Given} {opt : Opt} {value : Value}

theorem admits_natural {n : Nat} (hn : n < Nat.pow 2 32) :
    Kind.Admits (.integer 0 (Nat.pow 2 32 - 1)) (.integer n) := by
  have hbound : n < 4294967296 := hn
  exact .integer (Int.natCast_nonneg n) (show (n : Int) ≤ 4294967296 - 1 by omega)

theorem admits_place {place : Place} (hplace : Place.Expressible place)
    (hvalue : Place.value? withZero place opt = some value) : opt.kind.Admits value := by
  cases opt with
  | limit =>
    obtain ⟨n, hn, rfl⟩ := Option.map_eq_some_iff.1 hvalue
    exact admits_natural (hplace.limit n hn)
  | offset =>
    rw [Place.value?] at hvalue
    split at hvalue
    · cases hvalue
    · cases hvalue
      exact admits_natural hplace.offset
  | text =>
    obtain ⟨s, -, rfl⟩ := Option.map_eq_some_iff.1 hvalue
    exact .text s
  | _ => cases hvalue

theorem admits_command {command : Command} (hcommand : Command.Expressible command)
    (hvalue : Command.value? withZero command opt = some value) : opt.kind.Admits value := by
  cases command with
  | listMachines place output wide => exact admits_place hcommand hvalue
  | dumpMachine id place out =>
    obtain ⟨hleast, hgreatest, hplace, hout⟩ := hcommand
    cases opt with
    | id =>
      cases hvalue
      exact .integer hleast (Int.le_sub_one_of_lt hgreatest)
    | out =>
      obtain ⟨s, hs, rfl⟩ := Option.map_eq_some_iff.1 hvalue
      exact .path fun hempty => hout (hempty ▸ hs)
    | _ => exact @admits_place withZero _ _ _ hplace hvalue
  | menu role =>
    cases opt with
    | role =>
      obtain ⟨r, -, rfl⟩ := Option.map_eq_some_iff.1 hvalue
      exact .role r
    | _ => cases hvalue
  | showToken | regenerateToken => cases hvalue

/-- Every value of an invocation is one that its option takes. -/
theorem admits_value (hi : Invocation.Expressible i)
    (hvalue : Invocation.value? withZero i opt = some value) : opt.kind.Admits value := by
  cases opt with
  | config =>
    obtain ⟨s, hs, rfl⟩ := Option.map_eq_some_iff.1 hvalue
    exact .path fun hempty => hi.config (hempty ▸ hs)
  | serverUrl | sessionToken | sessionHeader =>
    obtain ⟨s, -, rfl⟩ := Option.map_eq_some_iff.1 hvalue
    exact .text s
  | pageSize =>
    obtain ⟨n, hn, rfl⟩ := Option.map_eq_some_iff.1 hvalue
    exact admits_natural (hi.pageSize n hn)
  | _ => exact admits_command hi.command hvalue

theorem mem_ownOptions {command : Command}
    (hvalue : Command.value? withZero command opt = some value) :
    opt ∈ (Command.level command).ownOptions.map Prod.snd := by
  cases command <;> cases opt <;>
    first | exact List.mem_of_elem_eq_true rfl | cases hvalue

theorem mem_levelSwitches {command : Command} {s : Switch}
    (hon : Command.turnsOn command s = true) :
    s ∈ (Command.level command).switches.map Prod.snd := by
  cases command <;> cases s <;> first | exact List.mem_of_elem_eq_true rfl | cases hon

/-- The level of a command knows every option that has a value. -/
theorem knows_value (hvalue : Invocation.value? withZero i opt = some value) :
    (Command.level i.command).Knows (.option opt value) := by
  cases hglobal : opt.isGlobal with
  | true => exact .inl hglobal
  | false =>
    have hown : Command.value? withZero i.command opt = some value := by
      cases opt <;> first | exact hvalue | cases hglobal
    exact .inr (mem_ownOptions hown)

theorem Asks.continues (hasks : Asks line i) (hi : Invocation.Expressible i) :
    Continues {} .top (Command.level i.command) line where
  leads := by
    rw [hasks.path]
    cases i.command <;> rfl
  above _ := ⟨fun o ho => absurd ho List.not_mem_nil, rfl⟩
  placed := hasks.placed
  flags name f hf := by
    obtain ⟨withZero, hperm⟩ := hasks.flags
    have hmem := hperm.mem_iff.1 (List.mem_filterMap.2 ⟨_, hf, rfl⟩)
    refine ⟨List.contains_iff_mem.1 (hasks.named _ hf), ?_⟩
    cases f with
    | option opt value =>
      have hvalue := option_mem_flags.1 hmem
      exact ⟨admits_value hi hvalue, knows_value hvalue⟩
    | switch s => exact ⟨trivial, mem_levelSwitches (switch_mem_flags.1 hmem)⟩
  options := hasks.nodup.1
  switches := hasks.nodup.2

/-- A place is read back from its options and its switch. -/
theorem place_of_said {place : Place} {given : Given}
    (hlimit : given.get? .limit = Place.value? withZero place .limit)
    (hoffset : given.get? .offset = Place.value? withZero place .offset)
    (htext : given.get? .text = Place.value? withZero place .text)
    (hunauthorized : given.has .unauthorized = place.unauthorized) : given.place = place := by
  obtain ⟨unauthorized, limit, offset, text⟩ := place
  have hlimit' : given.nat? .limit = limit := by
    rw [Given.nat?, Given.integer?, hlimit]
    cases limit <;> rfl
  have hoffset' : (given.nat? .offset).getD 0 = offset := by
    rw [Given.nat?, Given.integer?, hoffset, Place.value?]
    split
    · next hzero => exact hzero.1.symm
    · rfl
  have htext' : given.text? .text = text := by
    rw [Given.text?, htext]
    cases text <;> rfl
  rw [Given.place, hunauthorized, hlimit', hoffset', htext']

/-- What a command says about its own options and switches is complete, and it is that command. -/
theorem command?_of_said {command : Command} {given : Given}
    (hget : ∀ opt, opt.isGlobal = false → given.get? opt = Command.value? withZero command opt)
    (hhas : ∀ s, given.has s = Command.turnsOn command s) :
    checkLevel (Command.level command) given false = .ok () ∧
      command? (Command.level command) given = some command := by
  have hjson : given.switches.contains .json = Command.turnsOn command .json := hhas .json
  have hyaml : given.switches.contains .yaml = Command.turnsOn command .yaml := hhas .yaml
  cases command with
  | listMachines place output wide =>
    have hplace : given.place = place :=
      place_of_said (hget .limit rfl) (hget .offset rfl) (hget .text rfl) (hhas .unauthorized)
    have houtput : given.output = output := by
      rw [Given.output, hhas, hhas]
      cases output <;> rfl
    constructor
    · rw [checkLevel, hjson, hyaml]
      cases output <;> rfl
    · rw [Command.level, command?, hplace, houtput, hhas]
      rfl
  | dumpMachine id place out =>
    have hid : given.get? .id = some (.integer id) := hget .id rfl
    have hplace : given.place = place :=
      place_of_said (hget .limit rfl) (hget .offset rfl) (hget .text rfl) (hhas .unauthorized)
    have hout : given.text? .out = out := by
      rw [Given.text?, hget .out rfl]
      cases out <;> rfl
    constructor
    · rw [checkLevel, hjson, hyaml, hid]
      rfl
    · rw [Command.level, command?, hplace, hout, Given.integer?, hid]
      rfl
  | menu role =>
    have hrole : given.role? .role = role := by
      rw [Given.role?, hget .role rfl]
      cases role <;> rfl
    constructor
    · rw [checkLevel, hjson, hyaml]
      rfl
    · rw [Command.level, command?, hrole]
  | showToken | regenerateToken =>
    refine ⟨?_, rfl⟩
    rw [checkLevel, hjson, hyaml]
    rfl

/-- The settings of an invocation are read back from the options of all levels. -/
theorem overrides_of_said {given : Given} (hi : Invocation.Expressible i)
    (hget : ∀ opt, given.get? opt = Invocation.value? withZero i opt) :
    given.text? .config = i.config ∧ overrides given = i.overrides := by
  have htext : ∀ opt s, Invocation.value? withZero i opt = Option.map Value.text s →
      given.text? opt = s := by
    intro opt s hs
    rw [Given.text?, hget, hs]
    cases s <;> rfl
  have hpageSize : given.nat? .pageSize = i.overrides.pageSize := by
    rw [Given.nat?, Given.integer?, hget, Invocation.value?]
    cases i.overrides.pageSize <;> rfl
  refine ⟨htext .config _ rfl, ?_⟩
  rw [overrides, htext .serverUrl _ rfl, htext .sessionHeader _ rfl, htext .sessionToken _ rfl,
    hpageSize, ← hi.dumpDir]

/-- Whoever writes a command line for an invocation, its flags in any order, asks for exactly that
invocation. -/
theorem parse_line (hi : Invocation.Expressible i) (hasks : Asks line i) :
    parse (line.map Piece.word) = .ok i := by
  obtain ⟨withZero, hperm⟩ := hasks.flags
  obtain ⟨outer, last, hdivides, hread⟩ := readLevels_line (hasks.continues hi)
  have hnodup := hasks.nodup
  have hsaid : ∀ opt value, (opt, value) ∈ options line ↔
      Invocation.value? withZero i opt = some value := by
    intro opt value
    rw [mem_options, hperm.mem_iff, option_mem_flags]
  have hoptions : (outer.flatMap fun level => level.2.options) ++ last.options = options line :=
    hdivides.options
  -- On the last level everything of its own was given.
  have hlast : ∀ opt, opt.isGlobal = false →
      last.get? opt = Command.value? withZero i.command opt := by
    intro opt hown
    have hvalue : Invocation.value? withZero i opt = Command.value? withZero i.command opt := by
      cases opt <;> first | rfl | cases hown
    rw [← hvalue]
    rw [← hoptions, List.map_append] at hnodup
    refine get?_eq hnodup.1.of_append_right fun value => ?_
    rw [← hsaid, ← hoptions, List.mem_append]
    refine ⟨.inr, fun hmem => hmem.resolve_left fun habove => ?_⟩
    exact absurd (hdivides.above _ habove) (by rw [hown]; exact Bool.false_ne_true)
  have hhas : ∀ s, last.has s = Command.turnsOn i.command s := by
    intro s
    rw [Given.has, hdivides.switches, Bool.eq_iff_iff, List.contains_iff_mem]
    exact mem_switches_line.trans (hperm.mem_iff.trans switch_mem_flags)
  obtain ⟨hcheck, hcommand⟩ := command?_of_said hlast hhas
  -- On all levels together everything was given, the innermost first.
  have hall : ∀ opt, (innermostFirst (outer ++ [(Command.level i.command, last)])).get? opt =
      Invocation.value? withZero i opt := by
    have hlevels : (innermostFirst (outer ++ [(Command.level i.command, last)])).options.Perm
        (options line) := by
      rw [← hoptions, innermostFirst]
      refine ((List.reverse_perm _).flatMap_right _).trans (.of_eq ?_)
      rw [List.flatMap_append, List.flatMap_singleton]
    intro opt
    refine get?_eq ((hlevels.map Prod.fst).nodup_iff.2 hnodup.1) fun value => ?_
    rw [hlevels.mem_iff, hsaid]
  obtain ⟨hconfig, hoverrides⟩ := overrides_of_said hi hall
  refine bind_eq_ok.2 ⟨_, hread hcheck, ?_⟩
  simp only [invocation, List.getLast?_concat, Option.bind_some, hcommand, hconfig, hoverrides]

end Invocations

/-- A dump with texts that are empty or look like flags, and an offset of zero in words. -/
def crowded : Invocation where
  config := some "=.toml"
  overrides :=
    { serverUrl := some "", sessionHeader := some "--id=7", sessionToken := some "a=b",
      pageSize := some 4294967295 }
  command := .dumpMachine (-9223372036854775808)
    { unauthorized := true, limit := some 0, text := some "-- ü" } (some "--wide")

/-- Its flags around and between its subcommands. -/
def crowdedLine : List Piece :=
  [.flag "token" (.option .sessionToken (.text "a=b")),
    .subcommand "machines",
    .flag "server-url" (.option .serverUrl (.text "")),
    .flag "config" (.option .config (.text "=.toml")),
    .subcommand "dump",
    .flag "text" (.option .text (.text "-- ü")),
    .flag "page-size" (.option .pageSize (.integer 4294967295)),
    .flag "out" (.option .out (.text "--wide")),
    .flag "offset" (.option .offset (.integer 0)),
    .flag "unauthorized" (.switch .unauthorized),
    .flag "id" (.option .id (.integer (-9223372036854775808))),
    .flag "session-header" (.option .sessionHeader (.text "--id=7")),
    .flag "limit" (.option .limit (.integer 0))]

theorem crowdedLine_words : crowdedLine.map Piece.word =
    ["--token=a=b", "machines", "--server-url=", "--config==.toml", "dump", "--text=-- ü",
      "--page-size=4294967295", "--out=--wide", "--offset=0", "--unauthorized",
      "--id=-9223372036854775808", "--session-header=--id=7", "--limit=0"] := by
  decide +kernel

theorem parse_crowdedLine :
    Invocation.Expressible crowded ∧ Asks crowdedLine crowded ∧
      parse ["--token=a=b", "machines", "--server-url=", "--config==.toml", "dump", "--text=-- ü",
        "--page-size=4294967295", "--out=--wide", "--offset=0", "--unauthorized",
        "--id=-9223372036854775808", "--session-header=--id=7", "--limit=0"] = .ok crowded := by
  have hplace : Place.Expressible
      { unauthorized := true, limit := some 0, text := some "-- ü" } :=
    { limit := by rintro n ⟨⟩; decide
      offset := by decide }
  have hi : Invocation.Expressible crowded :=
    { config := by decide
      pageSize := by rintro n ⟨⟩; decide
      dumpDir := rfl
      command := ⟨by decide, by decide, hplace, by decide⟩ }
  have hasks : Asks crowdedLine crowded :=
    { path := rfl
      flags := ⟨true, by decide⟩
      named := by decide
      placed := by decide }
  refine ⟨hi, hasks, ?_⟩
  rw [← crowdedLine_words]
  exact parse_line hi hasks

end FleetConsole.CommandLine
