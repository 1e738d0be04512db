import FleetConsole.Proofs.Settings.Draft

/-!
# Which source a setting comes from

Every setting is looked up by itself: it is what the command line says, or else the environment, or
else the file, or else the default, converted to its type (`from_first_source_iff`). Only what the
first of these says has to be convertible, and only the settings that result have to be valid. A
file that has an empty table for a setting says nothing about it, as long as there is a default
(`empty_table_passed_over`).
-/

namespace FleetConsole

open SettingsDraft

/-! ### Reading a setting of a draft -/

namespace Setting

variable {k : Setting} {draft : SettingsDraft}

/-- A setting is read if it was given, in any form that can be converted, or need not be given. -/
theorem reading_eq_ok {v : Option SettingValue}
    (hgiven : k = sessionToken ∨ (raw? k.name draft).isSome) :
    k.reading draft = .ok v ↔ (∀ raw, raw? k.name draft = some raw → (k.reads raw).isSome) ∧
      (raw? k.name draft).bind k.reads = v := by
  cases hget : draft.get? k.name with
  | none =>
    have hnone : raw? k.name draft = none := by rw [raw?, hget, Option.map_none]
    obtain rfl : k = sessionToken := by simpa [hnone] using hgiven
    have hreading : sessionToken.reading draft = .ok none := by
      simp only [reading, hget]
      rfl
    simp [hreading, hnone]
  | some given =>
    have hraw : raw? k.name draft = some given.raw := by rw [raw?, hget, Option.map_some]
    rw [reading_of_get? hget, hraw, ← toOption_eq_some, toOption_map, toOption_convert]
    cases hreads : k.reads given.raw <;> simp [hreads]

/-- What the sources below the command line give for a setting, by what the file and the environment
say about it: what is said last in the environment, or else in the file, or else the default. -/
def told? (k : Setting) (file environment : List Toml.Value) : Option RawSetting :=
  (lastSaid? environment).or
    ((lastSaid? file).or ((raw? k.name Settings.defaults).or (leftover? file)))

theorem told?_isSome (hk : k ≠ sessionToken) (file environment : List Toml.Value) :
    (k.told? file environment).isSome := by
  have hdefault : (raw? k.name Settings.defaults).isSome := by
    cases k <;> first | rfl | exact absurd rfl hk
  simp [told?, hdefault]

end Setting

namespace Settings

variable {t : Storage.Tree} {environment : List (String × String)} {config : Option String}
  {o : SettingsOverrides} {table : Toml.Table}

/-! ### Sources that use the names of the settings -/

/-- Whenever a key stands for a setting, it is the name of the setting: it has no capital letters
and goes on with no step. -/
def Direct (values : Toml.Table) : Prop :=
  ∀ entry ∈ values, ∀ k : Setting, (SettingName.ofText entry.1).name = k.name → entry.1 = k.name

theorem direct_of_names (hnames : ∀ entry ∈ table, ∃ k : Setting, entry.1 = k.name) :
    Direct table := by
  intro entry hentry k hname
  obtain ⟨j, hj⟩ := hnames entry hentry
  rwa [hj, j.ofText_name, ← hj] at hname

/-- No variable of the console has a mark in its name by which the name would go on. -/
def PlainVariables (environment : List (String × String)) : Prop :=
  ∀ v ∈ environment, (variableKey? v.1).isSome → '.' ∉ v.1.toList ∧ '[' ∉ v.1.toList

instance (environment : List (String × String)) : Decidable (PlainVariables environment) :=
  inferInstanceAs (Decidable (∀ v ∈ environment, _))

theorem mem_fromEnvironment {entry : String × Toml.Value}
    (hentry : entry ∈ fromEnvironment environment) :
    ∃ v ∈ environment, variableKey? v.1 = some entry.1 ∧ entry.2 = .text v.2 := by
  obtain ⟨v, hv, hgives⟩ := List.mem_filterMap.1 hentry
  obtain ⟨key, hkey, rfl⟩ := Option.map_eq_some_iff.1 hgives
  exact ⟨v, hv, hkey, rfl⟩

theorem direct_fromEnvironment (henvironment : PlainVariables environment) :
    Direct (fromEnvironment environment) := by
  intro entry hentry k hname
  obtain ⟨v, hv, hkey, -⟩ := mem_fromEnvironment hentry
  obtain ⟨hdot, hbracket⟩ := henvironment v hv (by rw [hkey, Option.isSome_some])
  rw [ofText_of_variableKey? hkey hdot hbracket] at hname
  exact hname

/-! ### What the sources say together -/

/-- A variable always says something, so it leaves nothing over. -/
theorem lastSaid?_or_leftover? (name : String) (environment : List (String × String))
    (lower : Option RawSetting) :
    let said := about name (fromEnvironment environment)
    (lastSaid? said).or (lower.or (leftover? said)) = (lastSaid? said).or lower := by
  intro said
  cases hsaid : said with
  | nil => rw [leftover?, List.head?_nil, Option.map_none, Option.or_none]
  | cons v rest =>
    have hv : v ∈ said := hsaid ▸ List.mem_cons_self
    obtain ⟨entry, hentry, hif⟩ := List.mem_filterMap.1 hv
    obtain ⟨_, -, -, htext⟩ := mem_fromEnvironment hentry
    split_ifs at hif with hname
    obtain rfl : entry.2 = v := Option.some.inj hif
    have hsays : said? entry.2 = some (RawSetting.ofValue entry.2) := by
      rw [htext]
      rfl
    rw [lastSaid?_cons, hsays, Option.or_assoc, Option.or_assoc, Option.some_or, Option.some_or]

theorem raw?_merged (henvironment : PlainVariables environment) (htable : Direct table)
    (origin : String) (k : Setting) : raw? k.name (merged origin table environment) =
      k.told? (about k.name table) (about k.name (fromEnvironment environment)) := by
  have hfile := raw?_giveAll k.ofText_name (fun entry hentry => htable entry hentry k)
    defaults origin
  have hboth := raw?_giveAll k.ofText_name
    (fun entry hentry => direct_fromEnvironment henvironment entry hentry k)
    (defaults.giveAll origin table) environmentName
  rw [merged, hboth, lastSaid?_or_leftover?, hfile, Setting.told?]

theorem reading_merged (henvironment : PlainVariables environment) (htable : Direct table)
    (origin : String) (k : Setting) {v : Option SettingValue} :
    k.reading (merged origin table environment) = .ok v ↔
      (∀ raw, k.told? (about k.name table) (about k.name (fromEnvironment environment)) = some raw →
        (k.reads raw).isSome) ∧
      (k.told? (about k.name table) (about k.name (fromEnvironment environment))).bind k.reads =
        v := by
  have hraw := raw?_merged henvironment htable origin k
  have hgiven : k = .sessionToken ∨ (raw? k.name (merged origin table environment)).isSome := by
    rw [hraw]
    exact (em (k = .sessionToken)).imp_right fun hk => Setting.told?_isSome hk _ _
  rw [Setting.reading_eq_ok hgiven, hraw]

/-! ### The settings that result -/

/-- Settings that are what the first source says that gives each of them. -/
structure FromFirst (table : Toml.Table) (environment : List (String × String))
    (o : SettingsOverrides) (s : Settings) : Prop where
  /-- What the first of the lower sources says about a setting can be converted. -/
  readable : ∀ (k : Setting) raw,
    k.told? (about k.name table) (about k.name (fromEnvironment environment)) = some raw →
      (k.reads raw).isSome
  /-- The command line comes before it. -/
  value : ∀ k : Setting, s.value k = (o.value k).or
    ((k.told? (about k.name table) (about k.name (fromEnvironment environment))).bind k.reads)
  /-- Only the result has to be valid. -/
  valid : s.validate = .ok ()

/-- Loading and overriding leads to settings exactly if they are from the first sources. -/
theorem from_first_source_iff (henvironment : PlainVariables environment)
    (hdirect : ∀ origin table, fileTable t config = .ok (origin, table) → Direct table)
    (s : Settings) : outcome t environment config o = .ok s ↔
      ∃ origin table, fileTable t config = .ok (origin, table) ∧
        FromFirst table environment o s := by
  rw [outcome_eq, bind_eq_ok, Prod.exists]
  refine exists_congr fun origin => exists_congr fun table => and_congr_right fun hfile => ?_
  have hreading (k : Setting) (v : Option SettingValue) :=
    reading_merged henvironment (hdirect origin table hfile) origin k (v := v)
  rw [overridden, bind_eq_ok]
  constructor
  · rintro ⟨loaded, hloaded, happly⟩
    obtain ⟨rfl, hvalid⟩ := apply_eq_ok.1 happly
    have hvalue (k : Setting) := (hreading k _).1 (reading_of_ofDraft hloaded k)
    exact ⟨fun k => (hvalue k).1, fun k => by rw [value_override, (hvalue k).2], hvalid⟩
  · rintro ⟨hreadable, hvalue, hvalid⟩
    obtain ⟨loaded, hloaded⟩ := exists_ofDraft fun k => ⟨_, (hreading k _).2 ⟨hreadable k, rfl⟩⟩
    refine ⟨loaded, hloaded, apply_eq_ok.2 ⟨ext_value fun k => ?_, hvalid⟩⟩
    rw [value_override, hvalue, ((hreading k _).1 (reading_of_ofDraft hloaded k)).2]

/-- An address and a size that would not be valid are replaced from above, each by itself. -/
theorem invalid_values_replaced :
    let t := configured "server_url = \"ftp://old.example\"\npage_size = 0\ndump_dir = \"dumps\"\n"
    let environment := [("FleetView_PAGE_SIZE", "+7"), ("FLEETVIEW_SESSION_TOKEN", "t")]
    let o : SettingsOverrides := { serverUrl := some "https://fleet.example" }
    let s : Settings := ⟨"https://fleet.example", "authorization", some "t", 7, "dumps", 30⟩
    PlainVariables environment ∧
      (∀ origin table, fileTable t none = .ok (origin, table) → Direct table) ∧
      outcome t environment none o = .ok s ∧
      ∃ origin table, fileTable t none = .ok (origin, table) ∧
        FromFirst table environment o s := by
  intro t environment o s
  have hplain : PlainVariables environment := by decide
  have hnames : (fileTable t none).toOption.all (fun file =>
      file.2.all fun entry => Setting.all.any fun k => entry.1 = k.name) = true := by
    decide +kernel
  have hdirect (origin table) (hfile : fileTable t none = .ok (origin, table)) : Direct table := by
    rw [hfile] at hnames
    refine direct_of_names fun entry hentry => ?_
    obtain ⟨k, -, hk⟩ := List.any_eq_true.1 (List.all_eq_true.1 hnames entry hentry)
    exact ⟨k, of_decide_eq_true hk⟩
  have hok : outcome t environment none o = .ok s := by decide +kernel
  exact ⟨hplain, hdirect, hok, (from_first_source_iff hplain hdirect s).1 hok⟩

/-- A file gives an empty table for the page size, which is no number, and the default counts. -/
theorem empty_table_passed_over :
    let t := configured "page_size = \x7b\x7d"
    ((fileTable t none).toOption.map fun file =>
        file.2.map fun entry => (entry.1, RawSetting.ofValue entry.2)) =
      some [("page_size", .mapping)] ∧
    Setting.pageSize.reads .mapping = none ∧
    outcome t [] none {} = .ok ⟨"http://127.0.0.1:8080", "authorization", none, 10, ".", 30⟩ := by
  decide +kernel

end Settings

end FleetConsole
