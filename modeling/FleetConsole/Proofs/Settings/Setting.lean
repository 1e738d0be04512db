import FleetConsole.Proofs.Except
import FleetConsole.Settings.Validate

/-!
# The settings one by one

The settings differ in their names, in the types of their values and in whether they must be given.
All of them are read from a draft in the same way, one after the other, and the first that cannot be
converted to its type is the problem of the whole draft (`ofDraft_cases`).
-/

namespace FleetConsole

/-- The settings, in the order in which they are read. -/
inductive Setting where
  | serverUrl
  | sessionHeader
  | sessionToken
  | pageSize
  | dumpDir
  | timeout
  deriving DecidableEq, Repr

/-- What a setting can be set to. -/
inductive SettingValue where
  | text (s : String)
  | number (n : Nat)
  deriving DecidableEq, Repr

/-- What a setting is set to. -/
def Settings.value (s : Settings) : Setting → Option SettingValue
  | .serverUrl => some (.text s.serverUrl)
  | .sessionHeader => some (.text s.sessionHeader)
  | .sessionToken => s.sessionToken.map .text
  | .pageSize => some (.number s.pageSize)
  | .dumpDir => some (.text s.dumpDir)
  | .timeout => some (.number s.timeout)

/-- What the command line sets a setting to. -/
def SettingsOverrides.value (o : SettingsOverrides) : Setting → Option SettingValue
  | .serverUrl => o.serverUrl.map .text
  | .sessionHeader => o.sessionHeader.map .text
  | .sessionToken => o.sessionToken.map .text
  | .pageSize => o.pageSize.map .number
  | .dumpDir => o.dumpDir.map .text
  | .timeout => none

namespace Setting

/-- The name of a setting in every source. -/
def name : Setting → String
  | .serverUrl => "server_url"
  | .sessionHeader => "session_header"
  | .sessionToken => "session_token"
  | .pageSize => "page_size"
  | .dumpDir => "dump_dir"
  | .timeout => "request_timeout_secs"

theorem name_injective : Function.Injective name := by
  intro j k hname
  cases j <;> cases k <;> first | rfl | exact absurd hname (by decide)

/-- All settings, in the order in which they are read. -/
def all : List Setting := [serverUrl, sessionHeader, sessionToken, pageSize, dumpDir, timeout]

/-! ### Reading one setting -/

/-- What was given for a setting in the type of the setting. -/
def convert (k : Setting) (given : GivenSetting) : Except SettingsProblem SettingValue :=
  match k with
  | .pageSize => (given.toNat32 k.name).map .number
  | .timeout => (given.toNat k.name).map .number
  | _ => (given.toText k.name).map .text

/-- A raw setting in the type of the setting, if it can be converted. -/
def reads (k : Setting) (raw : RawSetting) : Option SettingValue :=
  (k.convert ⟨raw, none⟩).toOption

/-- A setting as a draft has it, converted; only the token need not be given. -/
def reading (k : Setting) (draft : SettingsDraft) : Except SettingsProblem (Option SettingValue) :=
  match k with
  | .sessionToken => (draft.get? k.name).mapM k.convert
  | _ => (k.convert (Settings.given draft k.name)).map some

/-- Why a draft does not set a setting to anything. -/
def trouble? (k : Setting) (draft : SettingsDraft) : Option SettingsProblem :=
  match k.reading draft with
  | .ok _ => none
  | .error problem => some problem

/-- The first problem in the order in which settings are read. -/
def firstTrouble? (draft : SettingsDraft) : Option SettingsProblem :=
  all.findSome? fun k => k.trouble? draft

variable {k : Setting} {draft : SettingsDraft} {problem : SettingsProblem}

theorem reading_sessionToken (draft : SettingsDraft) : sessionToken.reading draft =
    ((draft.get? "session_token").mapM fun token : GivenSetting =>
      token.toText "session_token").map (Option.map .text) := by
  simp only [reading, name]
  cases draft.get? "session_token" with
  | none => rfl
  | some given =>
    simp only [Option.mapM_some, convert, name]
    cases given.toText "session_token" <;> rfl

theorem reading_of_get? {given : GivenSetting} (hget : draft.get? k.name = some given) :
    k.reading draft = (k.convert given).map some := by
  have hgiven : Settings.given draft k.name = given := by
    rw [Settings.given, hget, Option.getD_some]
  cases k with
  | sessionToken =>
    simp only [reading, hget, Option.mapM_some]
    cases sessionToken.convert given <;> rfl
  | _ => simp only [reading, hgiven]

theorem trouble?_eq_some : k.trouble? draft = some problem ↔ k.reading draft = .error problem := by
  rw [trouble?]
  cases k.reading draft <;> simp

/-! ### What a conversion depends on and complains of -/

/-- Where a value came from does not matter for what it is converted to. -/
theorem toOption_convert (k : Setting) (given : GivenSetting) :
    (k.convert given).toOption = k.reads given.raw := by
  obtain ⟨raw, origin⟩ := given
  have htext (key : String) : (GivenSetting.toText ⟨raw, origin⟩ key).toOption =
      (GivenSetting.toText ⟨raw, none⟩ key).toOption := by
    cases raw <;> rfl
  have hnat (key : String) : (GivenSetting.toNat ⟨raw, origin⟩ key).toOption =
      (GivenSetting.toNat ⟨raw, none⟩ key).toOption := by
    cases raw <;> simp only [GivenSetting.toNat] <;> first | rfl | (split <;> rfl)
  cases k <;>
    simp only [reads, convert, toOption_map, htext, GivenSetting.toNat32, toOption_bind, hnat]

/-- A problem that was met when the setting of a name was converted. -/
def IsMismatch (key : String) (problem : SettingsProblem) : Prop :=
  ∃ mismatch, problem = .wrongType mismatch ∧ mismatch.key = key

section Mismatch

variable {given : GivenSetting} {key : String}

theorem isMismatch_of_toText (herror : given.toText key = .error problem) :
    IsMismatch key problem := by
  rw [GivenSetting.toText] at herror
  split at herror <;> cases herror <;> exact ⟨_, rfl, rfl⟩

theorem isMismatch_of_toNat (herror : given.toNat key = .error problem) :
    IsMismatch key problem := by
  rw [GivenSetting.toNat] at herror
  split at herror <;> first | (split at herror <;> cases herror) | cases herror
  all_goals exact ⟨_, rfl, rfl⟩

theorem isMismatch_of_toNat32 (herror : given.toNat32 key = .error problem) :
    IsMismatch key problem := by
  rw [GivenSetting.toNat32] at herror
  cases hnat : given.toNat key with
  | error first =>
    rw [hnat] at herror
    cases herror
    exact isMismatch_of_toNat hnat
  | ok n =>
    rw [hnat] at herror
    change (if n ≤ GivenSetting.greatest32 then _ else _) = _ at herror
    split at herror <;> cases herror
    exact ⟨_, rfl, rfl⟩

theorem isMismatch_of_convert (herror : k.convert given = .error problem) :
    IsMismatch k.name problem := by
  cases k <;> simp only [convert, map_eq_error] at herror
  case pageSize => exact isMismatch_of_toNat32 herror
  case timeout => exact isMismatch_of_toNat herror
  all_goals exact isMismatch_of_toText herror

end Mismatch

theorem isMismatch_of_trouble? (htrouble : k.trouble? draft = some problem) :
    IsMismatch k.name problem := by
  rw [trouble?_eq_some] at htrouble
  by_cases htoken : k = sessionToken
  · subst htoken
    cases hget : draft.get? sessionToken.name with
    | none =>
      simp only [reading, hget] at htrouble
      cases htrouble
    | some given =>
      rw [reading_of_get? hget, map_eq_error] at htrouble
      exact isMismatch_of_convert htrouble
  · rw [reading, map_eq_error] at htrouble
    · exact isMismatch_of_convert htrouble
    · exact htoken

end Setting

/-! ### Reading all settings -/

open Setting in
/-- Either the first setting that cannot be converted is the problem, or all of them can be. -/
theorem Settings.ofDraft_cases (draft : SettingsDraft) :
    (∃ problem, firstTrouble? draft = some problem ∧ ofDraft draft = .error problem) ∨
      ∃ s, firstTrouble? draft = none ∧ ofDraft draft = .ok s ∧
        ∀ k : Setting, k.reading draft = .ok (s.value k) := by
  simp only [firstTrouble?, all, List.findSome?_cons, List.findSome?_nil, ofDraft,
    Setting.trouble?, reading_sessionToken]
  simp only [reading, convert, Setting.name]
  cases hurl : (given draft "server_url").toText "server_url" with
  | error problem => exact .inl ⟨problem, rfl, rfl⟩
  | ok url =>
  cases hheader : (given draft "session_header").toText "session_header" with
  | error problem => exact .inl ⟨problem, rfl, rfl⟩
  | ok header =>
  cases htoken : (draft.get? "session_token").mapM fun token : GivenSetting =>
      token.toText "session_token" with
  | error problem => exact .inl ⟨problem, rfl, rfl⟩
  | ok token =>
  cases hsize : (given draft "page_size").toNat32 "page_size" with
  | error problem => exact .inl ⟨problem, rfl, rfl⟩
  | ok size =>
  cases hdir : (given draft "dump_dir").toText "dump_dir" with
  | error problem => exact .inl ⟨problem, rfl, rfl⟩
  | ok dir =>
  cases htimeout : (given draft "request_timeout_secs").toNat "request_timeout_secs" with
  | error problem => exact .inl ⟨problem, rfl, rfl⟩
  | ok timeout =>
    refine .inr ⟨⟨url, header, token, size, dir, timeout⟩, rfl, rfl, fun k => ?_⟩
    cases k with
    | sessionToken =>
      change Setting.sessionToken.reading draft = _
      rw [reading_sessionToken, htoken]
      rfl
    | _ => simp only [hurl, hheader, hsize, hdir, htimeout]; rfl

theorem Settings.reading_of_ofDraft {draft : SettingsDraft} {s : Settings}
    (hsettings : ofDraft draft = .ok s) (k : Setting) : k.reading draft = .ok (s.value k) := by
  rcases ofDraft_cases draft with ⟨problem, -, herror⟩ | ⟨s', -, hok, hreading⟩
  · rw [herror] at hsettings
    cases hsettings
  · obtain rfl : s' = s := Except.ok.inj (hok.symm.trans hsettings)
    exact hreading k

theorem Settings.exists_ofDraft {draft : SettingsDraft}
    (hall : ∀ k : Setting, ∃ v, k.reading draft = .ok v) : ∃ s, ofDraft draft = .ok s := by
  rcases ofDraft_cases draft with ⟨problem, hfirst, -⟩ | ⟨s, -, hok, -⟩
  · obtain ⟨k, -, htrouble⟩ := List.exists_of_findSome?_eq_some hfirst
    obtain ⟨v, hv⟩ := hall k
    rw [Setting.trouble?_eq_some, hv] at htrouble
    cases htrouble
  · exact ⟨s, hok⟩

/-! ### Overriding settings -/

namespace Settings

theorem ext_value {s s' : Settings} (hvalue : ∀ k, s.value k = s'.value k) : s = s' := by
  have hurl := hvalue .serverUrl
  have hheader := hvalue .sessionHeader
  have htoken := hvalue .sessionToken
  have hsize := hvalue .pageSize
  have hdir := hvalue .dumpDir
  have htimeout := hvalue .timeout
  have hinjective : Function.Injective (Option.map SettingValue.text) :=
    Option.map_injective fun _ _ hsame => SettingValue.text.inj hsame
  cases s
  cases s'
  simp only [value, Option.some.injEq, SettingValue.text.injEq, SettingValue.number.injEq,
    hinjective.eq_iff] at hurl hheader htoken hsize hdir htimeout
  subst hurl hheader htoken hsize hdir htimeout
  rfl

theorem value_override (s : Settings) (o : SettingsOverrides) (k : Setting) :
    (s.override o).value k = (o.value k).or (s.value k) := by
  obtain ⟨url, header, token, size, dir⟩ := o
  cases k with
  | serverUrl => cases url <;> rfl
  | sessionHeader => cases header <;> rfl
  | sessionToken => cases token <;> rfl
  | pageSize => cases size <;> rfl
  | dumpDir => cases dir <;> rfl
  | timeout => rfl

theorem apply_eq_ok {s s' : Settings} {o : SettingsOverrides} :
    s.apply o = .ok s' ↔ s.override o = s' ∧ s'.validate = .ok () := by
  rw [apply, bind_eq_ok]
  constructor
  · rintro ⟨⟨⟩, hvalid, ⟨⟩⟩
    exact ⟨rfl, hvalid⟩
  · rintro ⟨rfl, hvalid⟩
    exact ⟨(), hvalid, rfl⟩

theorem apply_eq_error {s : Settings} {o : SettingsOverrides} {problem : SettingsProblem} :
    s.apply o = .error problem ↔ (s.override o).validate = .error problem := by
  change (s.override o).validate >>= (fun _ => .ok (s.override o)) = _ ↔ _
  cases (s.override o).validate with
  | error first =>
    constructor <;>
      · rintro ⟨⟩
        rfl
  | ok done => constructor <;> rintro ⟨⟩

end Settings

end FleetConsole
