import FleetConsole.Proofs.Settings.Setting
import FleetConsole.Proofs.Text.Chars

/-!
# What becomes of several sources in a draft

What a draft has for a name after a source is what the source says last about the name, or else what
the draft had before (`raw?_giveAll`). An empty table says nothing, and it only leaves a mapping
where nothing was said before. Names count by what they stand for: what a source says about another
name has no part in it (`get?_giveAll_filter`).
-/

namespace FleetConsole

open Text

/-! ### Names -/

namespace SettingName

theorem lowerChar_of_ne {c : Char} (hkelvin : c ≠ '\u212A') : lowerChar c = c.toLower :=
  if_neg hkelvin

theorem lowerChar_lowerChar (c : Char) : lowerChar (lowerChar c) = lowerChar c := by
  by_cases hkelvin : c = '\u212A'
  · subst hkelvin
    decide
  · rw [lowerChar_of_ne hkelvin]
    rcases toLower_cases c with hsame | ⟨hsmall, -, hgreatest⟩
    · rw [hsame, lowerChar_of_ne hkelvin, hsame]
    · rw [lowerChar_of_ne, toLower_toLower]
      intro hagain
      rw [hagain, show ('\u212A').toNat = 0x212A from rfl] at hsmall
      omega

/-- No other character than a mark itself becomes that mark. -/
theorem eq_of_lowerChar {c mark : Char} (hmark : mark.toNat < 97) (hlower : lowerChar c = mark) :
    c = mark := by
  by_cases hkelvin : c = '\u212A'
  · subst hkelvin hlower
    exact absurd hmark (by decide)
  · rw [lowerChar_of_ne hkelvin] at hlower
    rcases toLower_cases c with hsame | ⟨hsmall, hleast, -⟩
    · rwa [hsame] at hlower
    · rw [hlower] at hsmall
      omega

theorem mem_of_mem_lower {s : String} {mark : Char} (hmark : mark.toNat < 97)
    (hmem : mark ∈ (lower s).toList) : mark ∈ s.toList := by
  rw [lower, String.toList_ofList] at hmem
  obtain ⟨c, hc, hlower⟩ := List.mem_map.1 hmem
  rwa [← eq_of_lowerChar hmark hlower]

/-- A text without marks goes on with no step. -/
theorem ofText_of_no_mark {s : String} (hdot : '.' ∉ (lower s).toList)
    (hbracket : '[' ∉ (lower s).toList) : ofText s = ⟨lower s, none⟩ := by
  rw [ofText]
  cases hrest : (lower s).toList.dropWhile isNameChar with
  | nil =>
    have hwhole : (lower s).toList.takeWhile isNameChar = (lower s).toList := by
      rw [← List.append_nil (List.takeWhile _ _), ← hrest, List.takeWhile_append_dropWhile]
    simp only [steps?, List.head?_nil]
    rw [hwhole, String.ofList_toList, ite_self]
  | cons c rest =>
    have hmem : c ∈ (lower s).toList :=
      (List.dropWhile_sublist _).subset (hrest ▸ List.mem_cons_self)
    have hnone : steps? ((lower s).toList.length + 1) (c :: rest) = none := by
      rw [steps?]
      · rintro ⟨⟩
      · rintro later ⟨⟩
        exact hdot hmem
      · rintro later ⟨⟩
        exact hbracket hmem
    simp only [hnone]

end SettingName

/-! ### The names of settings and of variables -/

namespace Setting

theorem ofText_name (k : Setting) : SettingName.ofText k.name = ⟨k.name, none⟩ := by
  cases k <;> decide

end Setting

namespace Settings

/-- What a variable without marks in its name is for stands for itself. -/
theorem ofText_of_variableKey? {name key : String} (hkey : variableKey? name = some key)
    (hdot : '.' ∉ name.toList) (hbracket : '[' ∉ name.toList) :
    SettingName.ofText key = ⟨key, none⟩ := by
  obtain ⟨rest, hrest, rfl⟩ := Option.map_eq_some_iff.1 hkey
  rw [afterStart?_eq_some] at hrest
  have hchars : ∀ c ∈ rest, c ∈ (SettingName.lower name).toList := fun c hc =>
    hrest ▸ List.mem_append_right _ hc
  have hlower : SettingName.lower (String.ofList rest) = String.ofList rest := by
    rw [SettingName.lower, String.toList_ofList]
    refine congrArg String.ofList ((List.map_congr_left fun c hc => ?_).trans (List.map_id rest))
    obtain ⟨d, -, rfl⟩ := List.mem_map.1 (by simpa [SettingName.lower] using hchars c hc)
    exact SettingName.lowerChar_lowerChar d
  have hmark {mark : Char} (hlow : mark.toNat < 97) (hname : mark ∉ name.toList) :
      mark ∉ (SettingName.lower (String.ofList rest)).toList := fun hmem =>
    hname (SettingName.mem_of_mem_lower hlow (hchars mark (by simpa [hlower] using hmem)))
  rw [SettingName.ofText_of_no_mark (hmark (by decide) hdot) (hmark (by decide) hbracket), hlower]

end Settings

/-! ### One value -/

namespace SettingsDraft

variable {name : String} {draft draft' : SettingsDraft}

/-- What a draft has for a name, wherever it comes from. -/
def raw? (name : String) (draft : SettingsDraft) : Option RawSetting :=
  (draft.get? name).map GivenSetting.raw

theorem get?_become_self (name : String) (raw : RawSetting) (draft : SettingsDraft) :
    get? name (become name raw draft) =
      some (((draft.get? name).filter fun given => given.raw = raw).getD ⟨raw, none⟩) := by
  rw [become]
  cases hold : draft.get? name with
  | none => exact get?_set_self name _ draft
  | some given =>
    by_cases hraw : given.raw = raw
    · simp [hraw, hold, Option.filter_some]
    · simp [hraw, get?_set_self, Option.filter_some]

theorem get?_become_congr (hsame : get? name draft = get? name draft') (raw : RawSetting) :
    get? name (become name raw draft) = get? name (become name raw draft') := by
  rw [get?_become_self, get?_become_self, hsame]

theorem get?_become_of_ne {other : String} (hne : other ≠ name) (raw : RawSetting)
    (draft : SettingsDraft) : get? other (become name raw draft) = get? other draft := by
  rw [become]
  split
  · rfl
  · exact get?_set_of_ne hne _ draft

/-- A value is given for the name that its key stands for, and for no other. -/
theorem get?_give_of_ne {key : String} (hne : name ≠ (SettingName.ofText key).name)
    (draft : SettingsDraft) (origin : String) (v : Toml.Value) :
    get? name (draft.give origin key v) = get? name draft := by
  unfold give
  dsimp only
  split
  · exact get?_become_of_ne hne _ draft
  · exact get?_become_of_ne hne _ draft
  · split
    · rfl
    · exact get?_become_of_ne hne _ draft
  · exact get?_become_of_ne hne _ draft
  · exact get?_set_of_ne hne _ draft

/-- What a draft has for a name after a value depends on nothing else in the draft. -/
theorem get?_give_congr (hsame : get? name draft = get? name draft') (origin key : String)
    (v : Toml.Value) :
    get? name (draft.give origin key v) = get? name (draft'.give origin key v) := by
  by_cases hne : name ≠ (SettingName.ofText key).name
  · rw [get?_give_of_ne hne, get?_give_of_ne hne, hsame]
  · rw [not_not] at hne
    subst hne
    unfold give
    dsimp only
    split
    · exact get?_become_congr hsame _
    · exact get?_become_congr hsame _
    · rw [← hsame]
      split
      · exact hsame
      · exact get?_become_congr hsame _
    · exact get?_become_congr hsame _
    · rw [get?_set_self, get?_set_self]

/-- What a value says; an empty table says nothing. -/
def said? : Toml.Value → Option RawSetting
  | .table [] => none
  | v => some (RawSetting.ofValue v)

theorem raw?_give_of_ne {key : String} (hne : name ≠ (SettingName.ofText key).name)
    (draft : SettingsDraft) (origin : String) (v : Toml.Value) :
    raw? name (draft.give origin key v) = raw? name draft :=
  congrArg (Option.map GivenSetting.raw) (get?_give_of_ne hne draft origin v)

/-- A value counts instead of what a draft had, unless it says nothing; then it counts as a mapping
where the draft had nothing. -/
theorem raw?_give_self (hself : SettingName.ofText name = ⟨name, none⟩) (draft : SettingsDraft)
    (origin : String) (v : Toml.Value) :
    raw? name (draft.give origin name v) = (said? v).or ((raw? name draft).or (some .mapping)) := by
  have hbecome : raw? name (draft.become name .mapping) = some .mapping := by
    rw [raw?, get?_become_self]
    cases hold : (draft.get? name).filter fun given => given.raw = .mapping with
    | none => rfl
    | some given =>
      have hraw := (Option.filter_eq_some_iff.1 hold).2
      exact congrArg some (of_decide_eq_true hraw)
  have hset (raw : RawSetting) : raw? name (draft.set name ⟨raw, some origin⟩) = some raw := by
    rw [raw?, get?_set_self, Option.map_some]
  unfold give
  rw [hself]
  cases v with
  | table entries =>
    cases entries with
    | nil =>
      cases hold : draft.get? name with
      | none => simpa [raw?, hold, said?] using hbecome
      | some given => simp [raw?, hold, said?]
    | cons entry entries => exact hbecome
  | _ => exact hset _

/-! ### All values of a source -/

theorem giveAll_cons (draft : SettingsDraft) (origin : String) (entry : String × Toml.Value)
    (rest : Toml.Table) : draft.giveAll origin (entry :: rest) =
      (draft.give origin entry.1 entry.2).giveAll origin rest :=
  rfl

/-- What a source says about a name, in its order. -/
def about (name : String) (values : Toml.Table) : List Toml.Value :=
  values.filterMap fun entry => if entry.1 = name then some entry.2 else none

/-- What is said last. -/
def lastSaid? (said : List Toml.Value) : Option RawSetting :=
  said.reverse.findSome? said?

/-- What is left of values that say nothing where nothing else is said. -/
def leftover? (said : List Toml.Value) : Option RawSetting :=
  said.head?.map fun _ => .mapping

theorem lastSaid?_cons (v : Toml.Value) (said : List Toml.Value) :
    lastSaid? (v :: said) = (lastSaid? said).or (said? v) := by
  rw [lastSaid?, List.reverse_cons, List.findSome?_append, List.findSome?_singleton]
  rfl

/-- What a draft has for a name after a source, if the source uses no other form of the name. -/
theorem raw?_giveAll (hself : SettingName.ofText name = ⟨name, none⟩) {values : Toml.Table}
    (hdirect : ∀ entry ∈ values, (SettingName.ofText entry.1).name = name → entry.1 = name)
    (draft : SettingsDraft) (origin : String) :
    raw? name (draft.giveAll origin values) = (lastSaid? (about name values)).or
      ((raw? name draft).or (leftover? (about name values))) := by
  induction values generalizing draft with
  | nil => exact (Option.or_none).symm
  | cons entry rest ih =>
    obtain ⟨key, v⟩ := entry
    rw [List.forall_mem_cons] at hdirect
    rw [giveAll_cons, ih hdirect.2]
    by_cases hkey : key = name
    · subst hkey
      have habout : about key ((key, v) :: rest) = v :: about key rest := by simp [about]
      rw [raw?_give_self hself, habout, lastSaid?_cons, leftover?, leftover?, List.head?_cons,
        Option.map_some]
      cases lastSaid? (about key rest) <;> cases said? v <;> cases raw? key draft <;> rfl
    · have hne : name ≠ (SettingName.ofText key).name := fun hname =>
        hkey (hdirect.1 hname.symm)
      have habout : about name ((key, v) :: rest) = about name rest := by simp [about, hkey]
      rw [raw?_give_of_ne hne, habout]

theorem get?_giveAll_congr (hsame : get? name draft = get? name draft') (origin : String)
    (values : Toml.Table) :
    get? name (draft.giveAll origin values) = get? name (draft'.giveAll origin values) := by
  induction values generalizing draft draft' with
  | nil => exact hsame
  | cons entry rest ih =>
    rw [giveAll_cons, giveAll_cons]
    exact ih (get?_give_congr hsame origin entry.1 entry.2)

/-- Only the values whose keys stand for a name count for it. -/
theorem get?_giveAll_filter (name : String) (draft : SettingsDraft) (origin : String)
    (values : Toml.Table) :
    get? name (draft.giveAll origin values) =
      get? name (draft.giveAll origin
        (values.filter fun entry => name = (SettingName.ofText entry.1).name)) := by
  induction values generalizing draft with
  | nil => rfl
  | cons entry rest ih =>
    by_cases hname : name = (SettingName.ofText entry.1).name
    · rw [List.filter_cons_of_pos (by simpa using hname), giveAll_cons, giveAll_cons, ← ih]
    · rw [List.filter_cons_of_neg (by simpa using hname), giveAll_cons, ← ih]
      exact get?_giveAll_congr (get?_give_of_ne hname draft origin entry.2) origin rest

end SettingsDraft

/-! ### All sources -/

namespace Settings

/-- What the configuration file is called and what it says; without one, nothing. -/
def fileTable (t : Storage.Tree) (config : Option String) :
    Except SettingsProblem (String × Toml.Table) := do
  match ← chosenFile t config with
  | some (path, bytes) => return (displayName t path, ← readTable bytes)
  | none => return ("", [])

/-- The draft from the defaults, a file and the environment. -/
def merged (origin : String) (table : Toml.Table) (environment : List (String × String)) :
    SettingsDraft :=
  (defaults.giveAll origin table).giveAll environmentName (fromEnvironment environment)

/-- The settings that are loaded and then overridden. -/
def outcome (t : Storage.Tree) (environment : List (String × String)) (config : Option String)
    (o : SettingsOverrides) : Except SettingsProblem Settings := do
  let loaded ← load t environment config
  loaded.apply o

/-- The settings of a draft, overridden. -/
def overridden (draft : SettingsDraft) (o : SettingsOverrides) :
    Except SettingsProblem Settings := do
  let loaded ← ofDraft draft
  loaded.apply o

theorem draft_eq (t : Storage.Tree) (environment : List (String × String))
    (config : Option String) : draft t environment config =
      (fileTable t config).map fun file => merged file.1 file.2 environment := by
  rw [draft, fileTable]
  cases chosenFile t config with
  | error problem => rfl
  | ok file =>
    cases file with
    | none => rfl
    | some file =>
      obtain ⟨path, bytes⟩ := file
      simp only [bind, Except.bind]
      cases readTable bytes <;> rfl

theorem outcome_eq (t : Storage.Tree) (environment : List (String × String))
    (config : Option String) (o : SettingsOverrides) :
    outcome t environment config o = fileTable t config >>= fun file =>
      overridden (merged file.1 file.2 environment) o := by
  rw [outcome, load, draft_eq]
  cases fileTable t config <;> rfl

/-- A tree in which only the usual configuration file is, with a content. -/
def configured (content : String) : Storage.Tree :=
  { files := [(["fleetview.toml"], content.toUTF8.toList)] }

end Settings

end FleetConsole
