import FleetConsole.Proofs.Settings.Draft
import Mathlib.Data.List.Basic

/-!
# Settings that the command line replaces

The command line replaces a setting after the draft of all settings has been read. Which value it
replaces does not matter then, but the value has been converted before: a value that cannot be is
the problem of the whole draft, although it would never be used (`masked_iff`).
-/

namespace FleetConsole

open SettingsDraft

/-! ### The order of reading -/

namespace Setting

variable {j k : Setting} {draft draft' : SettingsDraft} {problem : SettingsProblem}

/-- The settings that are read before one. -/
def earlier (k : Setting) : List Setting :=
  all.takeWhile (· ≠ k)

theorem all_eq (k : Setting) : ∃ later, all = k.earlier ++ k :: later ∧ k ∉ k.earlier := by
  cases k <;> exact ⟨_, rfl, by decide⟩

theorem reading_congr (hget : draft.get? k.name = draft'.get? k.name) :
    k.reading draft = k.reading draft' := by
  cases k <;> simp only [reading, Settings.given, hget]

theorem trouble?_congr (hreading : k.reading draft = k.reading draft') :
    k.trouble? draft = k.trouble? draft' := by
  rw [trouble?, trouble?, hreading]

theorem findSome?_trouble? {settings : List Setting}
    (hsame : ∀ j ∈ settings, j.trouble? draft = j.trouble? draft') :
    settings.findSome? (fun j => j.trouble? draft) =
      settings.findSome? (fun j => j.trouble? draft') := by
  rw [← List.head?_filterMap, List.filterMap_congr hsame, List.head?_filterMap]

theorem firstTrouble?_of_earlier
    (hbefore : k.earlier.findSome? (fun j => j.trouble? draft) = some problem) :
    firstTrouble? draft = some problem := by
  obtain ⟨later, hall, -⟩ := k.all_eq
  rw [firstTrouble?, hall, List.findSome?_append, hbefore, Option.some_or]

theorem firstTrouble?_of_trouble?
    (hbefore : k.earlier.findSome? (fun j => j.trouble? draft) = none)
    (htrouble : k.trouble? draft = some problem) : firstTrouble? draft = some problem := by
  obtain ⟨later, hall, -⟩ := k.all_eq
  rw [firstTrouble?, hall, List.findSome?_append, hbefore, Option.none_or, List.findSome?_cons,
    htrouble]

/-! ### What a source says about another setting -/

/-- What a source says about other settings. -/
def others (k : Setting) (values : Toml.Table) : Toml.Table :=
  values.filter fun entry => (SettingName.ofText entry.1).name ≠ k.name

theorem get?_giveAll_of_others (hne : j ≠ k) {values values' : Toml.Table}
    (hothers : k.others values = k.others values')
    (hget : draft.get? j.name = draft'.get? j.name) (origin : String) :
    (draft.giveAll origin values).get? j.name = (draft'.giveAll origin values').get? j.name := by
  have hfilter (values : Toml.Table) :
      (values.filter fun entry => j.name = (SettingName.ofText entry.1).name) =
        ((k.others values).filter fun entry => j.name = (SettingName.ofText entry.1).name) := by
    rw [others, List.filter_filter]
    refine List.filter_congr fun entry _ => ?_
    by_cases hname : j.name = (SettingName.ofText entry.1).name
    · have hother : (SettingName.ofText entry.1).name ≠ k.name := fun hk =>
        hne (name_injective (hname.trans hk))
      simp [hname, hother]
    · simp [hname]
  rw [get?_giveAll_filter, hfilter, hothers, ← hfilter, ← get?_giveAll_filter]
  exact get?_giveAll_congr hget origin values'

end Setting

namespace Settings

variable {j k : Setting} {draft draft' : SettingsDraft} {o : SettingsOverrides}
  {problem : SettingsProblem}

/-! ### Two drafts that differ in one setting -/

theorem not_isMismatch_of_validate {s : Settings} (herror : s.validate = .error problem)
    (key : String) : ¬Setting.IsMismatch key problem := by
  rintro ⟨mismatch, rfl, -⟩
  rw [validate] at herror
  cases hurl : Url.parse s.serverUrl with
  | error e =>
    rw [hurl] at herror
    cases herror
  | ok url =>
    rw [hurl] at herror
    change (if !url.isHttp then _ else _) = _ at herror
    split at herror
    · cases herror
    · split at herror
      · cases herror
      · split at herror <;> cases herror

theorem overridden_of_firstTrouble? (hfirst : Setting.firstTrouble? draft = some problem) :
    overridden draft o = .error problem := by
  rcases ofDraft_cases draft with ⟨first, hsome, herror⟩ | ⟨s, hnone, -, -⟩
  · obtain rfl : first = problem := Option.some.inj (hsome.symm.trans hfirst)
    rw [overridden, herror]
    rfl
  · rw [hnone] at hfirst
    cases hfirst

/-- A setting that can be converted is never what is complained of. -/
theorem not_isMismatch_of_overridden (hnone : k.trouble? draft = none)
    (herror : overridden draft o = .error problem) : ¬Setting.IsMismatch k.name problem := by
  rcases ofDraft_cases draft with ⟨first, hfirst, -⟩ | ⟨loaded, -, hok, -⟩
  · obtain rfl : first = problem :=
      Except.error.inj ((overridden_of_firstTrouble? hfirst).symm.trans herror)
    obtain ⟨j, -, htrouble⟩ := List.exists_of_findSome?_eq_some hfirst
    obtain ⟨mismatch, rfl, hkey⟩ := Setting.isMismatch_of_trouble? htrouble
    rintro ⟨_, ⟨⟩, hsame⟩
    obtain rfl : j = k := Setting.name_injective (hkey.symm.trans hsame)
    rw [hnone] at htrouble
    cases htrouble
  · rw [overridden, hok] at herror
    exact not_isMismatch_of_validate (apply_eq_error.1 herror) k.name

/-- Trouble with a setting shows in the result, unless there is trouble before. -/
theorem trouble?_of_overridden_eq
    (hbefore : k.earlier.findSome? (fun j => j.trouble? draft) = none)
    (hbefore' : k.earlier.findSome? (fun j => j.trouble? draft') = none)
    (hequal : overridden draft o = overridden draft' o)
    (htrouble : k.trouble? draft = some problem) : k.trouble? draft' = some problem := by
  have herror : overridden draft o = .error problem :=
    overridden_of_firstTrouble? (Setting.firstTrouble?_of_trouble? hbefore htrouble)
  rw [hequal] at herror
  cases htrouble' : k.trouble? draft' with
  | none =>
    -- the problem names the setting, which nothing else that can go wrong does
    exact absurd (Setting.isMismatch_of_trouble? htrouble)
      (not_isMismatch_of_overridden htrouble' herror)
  | some problem' =>
    have herror' : overridden draft' o = .error problem' :=
      overridden_of_firstTrouble? (Setting.firstTrouble?_of_trouble? hbefore' htrouble')
    rw [Except.error.inj (herror'.symm.trans herror)]

section Masked

variable (hgiven : (o.value k).isSome) (hothers : ∀ j ≠ k, j.reading draft = j.reading draft')

include hgiven hothers

/-- If the replaced setting makes the same trouble in both drafts, all else is the same. -/
theorem overridden_eq_of_trouble? (hsame : k.trouble? draft = k.trouble? draft') :
    overridden draft o = overridden draft' o := by
  have hfirst : Setting.firstTrouble? draft = Setting.firstTrouble? draft' := by
    refine Setting.findSome?_trouble? fun j _ => ?_
    by_cases hjk : j = k
    · rw [hjk, hsame]
    · exact Setting.trouble?_congr (hothers j hjk)
  rcases ofDraft_cases draft with ⟨problem, hsome, -⟩ | ⟨loaded, hnone, hok, hreading⟩
  · rw [overridden_of_firstTrouble? hsome, overridden_of_firstTrouble? (hfirst ▸ hsome)]
  · rcases ofDraft_cases draft' with ⟨problem, hsome, -⟩ | ⟨loaded', -, hok', hreading'⟩
    · rw [← hfirst, hnone] at hsome
      cases hsome
    · have hoverride : loaded.override o = loaded'.override o := by
        refine ext_value fun j => ?_
        rw [value_override, value_override]
        by_cases hjk : j = k
        · obtain ⟨v, hv⟩ := Option.isSome_iff_exists.1 hgiven
          rw [hjk, hv, Option.some_or, Option.some_or]
        · have hvalue := (hreading j).symm.trans ((hothers j hjk).trans (hreading' j))
          rw [Except.ok.inj hvalue]
      rw [overridden, overridden, hok, hok']
      change loaded.apply o = loaded'.apply o
      rw [apply, apply, hoverride]

/-- The result is the same exactly if the replaced setting makes the same trouble in both drafts, or
another setting makes trouble before it is read. -/
theorem overridden_eq_iff : overridden draft o = overridden draft' o ↔
    k.trouble? draft = k.trouble? draft' ∨ ∃ j ∈ k.earlier, (j.trouble? draft).isSome := by
  obtain ⟨-, -, hnot⟩ := k.all_eq
  have hsame : k.earlier.findSome? (fun j => j.trouble? draft) =
      k.earlier.findSome? (fun j => j.trouble? draft') :=
    Setting.findSome?_trouble? fun j hj =>
      Setting.trouble?_congr (hothers j fun hjk => hnot (hjk ▸ hj))
  cases hbefore : k.earlier.findSome? fun j => j.trouble? draft with
  | some problem =>
    -- neither draft is read as far as the setting
    obtain ⟨j, hj, htrouble⟩ := List.exists_of_findSome?_eq_some hbefore
    refine iff_of_true ?_ (.inr ⟨j, hj, by rw [htrouble, Option.isSome_some]⟩)
    rw [overridden_of_firstTrouble? (Setting.firstTrouble?_of_earlier hbefore),
      overridden_of_firstTrouble? (Setting.firstTrouble?_of_earlier (hsame ▸ hbefore))]
  | none =>
    have hnone : ¬∃ j ∈ k.earlier, (j.trouble? draft).isSome := by
      rintro ⟨j, hj, htrouble⟩
      rw [List.findSome?_eq_none_iff.1 hbefore j hj] at htrouble
      cases htrouble
    have hbefore' := hsame ▸ hbefore
    rw [or_iff_left hnone]
    refine ⟨fun hequal => Option.ext fun problem => ?_, overridden_eq_of_trouble? hgiven hothers⟩
    exact ⟨trouble?_of_overridden_eq hbefore hbefore' hequal,
      trouble?_of_overridden_eq hbefore' hbefore hequal.symm⟩

end Masked

/-! ### Two sources that differ in one setting -/

variable {t t' : Storage.Tree} {environment environment' : List (String × String)}
  {config config' : Option String} {origin : String} {table table' : Toml.Table}

/-- A variable for a setting says nothing about the others. -/
theorem others_fromEnvironment_cons {v : String × String} (hkey : variableKey? v.1 = some k.name)
    (environment : List (String × String)) : k.others (fromEnvironment (v :: environment)) =
      k.others (fromEnvironment environment) := by
  have hgives : fromEnvironment (v :: environment) =
      (k.name, .text v.2) :: fromEnvironment environment := by
    rw [fromEnvironment, List.filterMap_cons, hkey]
    rfl
  have hname : (SettingName.ofText k.name).name = k.name := by rw [k.ofText_name]
  rw [hgives, Setting.others, List.filter_cons_of_neg (by simpa using hname)]
  rfl

/-- What a file and the environment say about a setting that the command line gives makes no
difference exactly if it makes the same trouble, or if a setting that is read before makes some. -/
theorem masked_iff (hgiven : (o.value k).isSome)
    (hfile : fileTable t config = .ok (origin, table))
    (hfile' : fileTable t' config' = .ok (origin, table'))
    (htable : k.others table = k.others table')
    (henvironment : k.others (fromEnvironment environment) =
      k.others (fromEnvironment environment')) :
    outcome t environment config o = outcome t' environment' config' o ↔
      k.trouble? (merged origin table environment) =
          k.trouble? (merged origin table' environment') ∨
        ∃ j ∈ k.earlier, (j.trouble? (merged origin table environment)).isSome := by
  have hothers (j : Setting) (hne : j ≠ k) : j.reading (merged origin table environment) =
      j.reading (merged origin table' environment') :=
    Setting.reading_congr (Setting.get?_giveAll_of_others hne henvironment
      (Setting.get?_giveAll_of_others hne htable rfl origin) environmentName)
  rw [outcome_eq, outcome_eq, hfile, hfile']
  exact overridden_eq_iff hgiven hothers

/-- A size in the environment that would not be valid is masked by the one that is asked for. -/
theorem invalid_size_masked :
    let t := configured "page_size = true\nsession_header = \"x-session\"\n"
    let invalid := [("Fleetview_Page_Size", "0"), ("FLEETVIEW_SERVER_URL", "http://fleet.example")]
    let removed := [("FLEETVIEW_SERVER_URL", "http://fleet.example")]
    let o : SettingsOverrides := { pageSize := some 20 }
    (o.value .pageSize).isSome ∧ (fileTable t none).toOption.isSome ∧
      Setting.pageSize.others (fromEnvironment invalid) =
        Setting.pageSize.others (fromEnvironment removed) ∧
      outcome t invalid none o = outcome t removed none o := by
  intro t invalid removed o
  have hgiven : (o.value .pageSize).isSome := rfl
  have henvironment : Setting.pageSize.others (fromEnvironment invalid) =
      Setting.pageSize.others (fromEnvironment removed) :=
    others_fromEnvironment_cons (by decide) removed
  have htroubles : (fileTable t none).toOption.map (fun file =>
      (Setting.pageSize.trouble? (merged file.1 file.2 invalid),
        Setting.pageSize.trouble? (merged file.1 file.2 removed))) = some (none, none) := by
    decide +kernel
  obtain ⟨⟨origin, table⟩, hread, hnone⟩ := Option.map_eq_some_iff.1 htroubles
  have hfile := toOption_eq_some.1 hread
  have htrouble := (congrArg Prod.fst hnone).trans (congrArg Prod.snd hnone).symm
  refine ⟨hgiven, by rw [hread, Option.isSome_some], henvironment, ?_⟩
  exact (masked_iff hgiven hfile hfile rfl henvironment).2 (.inl htrouble)

/-- A size in the environment that is no number shows, although another one is asked for. -/
theorem mistyped_size_not_masked :
    let o : SettingsOverrides := { pageSize := some 20 }
    outcome {} [("FLEETVIEW_PAGE_SIZE", "abc")] none o =
      .error (.wrongType ⟨"string \"abc\"", "an integer", "page_size", some environmentName⟩) ∧
    outcome {} [] none o =
      .ok ⟨"http://127.0.0.1:8080", "authorization", none, 20, ".", 30⟩ := by
  decide +kernel

end Settings

end FleetConsole
