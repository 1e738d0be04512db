import FleetConsole.Proofs.Machine.Read

/-!
# Machines that were written

A machine in order whose other fields hold no numbers but integers is read back from its fields in
either layout, in whatever order they are written (`read_fields`): what its reader knows depends
only on which fields have been read (`draftAfter`). A machine that was read is in order, so a text,
the machine that it describes and what is written for that machine agree
(`unchanged_when_rewritten`).
-/

namespace FleetConsole.Machine

open Json Json.Read

variable {depth : Nat} {layout : Layout} {m : Machine}

/-- All numbers in the fields that the console does not interpret are integers. -/
def IsIntegral (m : Machine) : Prop := ∀ field ∈ m.extra, Integral field.2

/-! ### Which fields are written -/

theorem mem_optionalField {name : String} {s : Option String} {field : String × Json} :
    field ∈ optionalField name s ↔ ∃ text, s = some text ∧ field = (name, .text text) := by
  cases s <;> simp [optionalField]

/-- The names of the fields that are always written. -/
def requiredNames : List String := ["id", "address", "agentPort", "hostname", "authorized"]

/-- The fields of a machine that the console interprets, as they are written. -/
def knownFields (m : Machine) : List (String × Json) :=
  [("id", Json.ofInt m.id), ("address", .text m.address), ("agentPort", Json.ofNat m.agentPort),
    ("hostname", .text m.hostname), ("authorized", .bool m.authorized)]
    ++ optionalField "agentVersion" m.agentVersion
    ++ optionalField "lastVisitedAt" (m.lastVisitedAt.map (Instant.text .exact))
    ++ optionalField "error" m.error

theorem toFields_eq (m : Machine) : m.toFields = m.knownFields ++ m.extra := rfl

/-- The fields that can be written for what the console interprets. -/
theorem mem_knownFields_cases {field : String × Json} (hfield : field ∈ m.knownFields) :
    field = ("id", Json.ofInt m.id) ∨ field = ("address", .text m.address) ∨
    field = ("agentPort", Json.ofNat m.agentPort) ∨ field = ("hostname", .text m.hostname) ∨
    field = ("authorized", .bool m.authorized) ∨
    (∃ s, m.agentVersion = some s ∧ field = ("agentVersion", .text s)) ∨
    (∃ t, m.lastVisitedAt = some t ∧ field = ("lastVisitedAt", .text (t.text .exact))) ∨
    ∃ s, m.error = some s ∧ field = ("error", .text s) := by
  simp only [knownFields, List.mem_append, List.mem_cons, List.not_mem_nil, or_false,
    mem_optionalField, Option.map_eq_some_iff] at hfield
  rcases hfield with (((hid | haddress | hport | hhostname | hauthorized) | hversion) |
    ⟨_, ⟨t, ht, rfl⟩, hvisit⟩) | hfault
  · exact .inl hid
  · exact .inr (.inl haddress)
  · exact .inr (.inr (.inl hport))
  · exact .inr (.inr (.inr (.inl hhostname)))
  · exact .inr (.inr (.inr (.inr (.inl hauthorized))))
  · exact .inr (.inr (.inr (.inr (.inr (.inl hversion)))))
  · exact .inr (.inr (.inr (.inr (.inr (.inr (.inl ⟨t, ht, hvisit⟩))))))
  · exact .inr (.inr (.inr (.inr (.inr (.inr (.inr hfault))))))

/-- Why a known field is written. -/
theorem mem_knownFields {field : String × Json} (hfield : field ∈ m.knownFields) :
    (field.1 ∈ requiredNames ∧ ((∃ s, field.2 = .text s) ∨ (∃ b, field.2 = .bool b) ∨
      field.2 = Json.ofInt m.id ∨ field.2 = Json.ofNat m.agentPort)) ∨
    ((m.agentVersion ≠ none ∧ field.1 = "agentVersion" ∨
      m.lastVisitedAt ≠ none ∧ field.1 = "lastVisitedAt" ∨
      m.error ≠ none ∧ field.1 = "error") ∧ ∃ s, field.2 = .text s) := by
  rcases mem_knownFields_cases hfield with rfl | rfl | rfl | rfl | rfl | ⟨s, hs, rfl⟩ |
    ⟨t, ht, rfl⟩ | ⟨s, hs, rfl⟩ <;> simp [requiredNames, *]

theorem names_optionalField (name : String) (s : Option String) :
    ((optionalField name s).map Prod.fst).Sublist [name] := by
  cases s with
  | none => exact List.nil_sublist _
  | some text => exact .refl _

theorem names_knownFields (m : Machine) : (m.knownFields.map Prod.fst).Sublist knownNames := by
  simp only [knownFields, List.map_append]
  exact (((List.Sublist.refl _).append (names_optionalField _ _)).append
    (names_optionalField _ _)).append (names_optionalField _ _)

theorem name_mem_knownNames {field : String × Json} (hfield : field ∈ m.knownFields) :
    field.1 ∈ knownNames :=
  m.names_knownFields.subset (List.mem_map_of_mem hfield)

/-- Each name is written once. -/
theorem nodup_toFields (hwf : WellFormed depth m) : (m.toFields.map Prod.fst).Nodup := by
  rw [toFields_eq, List.map_append, List.nodup_append]
  refine ⟨m.names_knownFields.nodup (by decide), hwf.extra.sorted.nodup, ?_⟩
  intro known hknown other hother heq
  obtain ⟨field, hfield, rfl⟩ := List.mem_map.1 hother
  exact hwf.names field hfield (heq ▸ m.names_knownFields.subset hknown)

theorem filter_toFields (hwf : WellFormed depth m) :
    m.toFields.filter (fun field => field.1 ∉ knownNames) = m.extra := by
  have hknown : m.knownFields.filter (fun field => field.1 ∉ knownNames) = [] :=
    List.filter_eq_nil_iff.2 fun field hfield hnot =>
      of_decide_eq_true hnot (name_mem_knownNames hfield)
  have hextra : m.extra.filter (fun field => field.1 ∉ knownNames) = m.extra :=
    List.filter_eq_self.2 fun field hfield => decide_eq_true (hwf.names field hfield)
  rw [toFields_eq, List.filter_append, hknown, hextra, List.nil_append]

/-! ### Fields that are read back -/

theorem reads_readInstant (layout : Layout) {t : Instant} (ht : t.IsProper) :
    Reads readInstant layout t (.text (t.text .exact)) := by
  have hreads := reads_text layout (t.text .exact)
  refine ⟨hreads.head, fun tail hends => ?_⟩
  rw [readInstant, hreads.read tail hends]
  dsimp only [bind, Except.bind]
  rw [Instant.ofText?_text ht]
  rfl

theorem isKeptInt_id (hwf : WellFormed depth m) : IsKeptInt m.id := by
  have hid : -9223372036854775808 ≤ m.id ∧ m.id ≤ 9223372036854775808 - 1 := hwf.id
  rw [isKeptInt_iff]
  omega

theorem isKeptInt_agentPort (hwf : WellFormed depth m) : IsKeptInt m.agentPort := by
  have hport : m.agentPort ≤ 65535 := hwf.agentPort
  rw [isKeptInt_iff]
  omega

/-- A value, if a field of some name has been read. -/
def told {α : Type} (read : List (String × Json)) (name : String) (x : α) : Option α :=
  if name ∈ read.map Prod.fst then some x else none

/-- A value that may be absent, if it is there and a field of some name has been read. -/
def toldOptional {α : Type} (read : List (String × Json)) (name : String) (x : Option α) :
    Option (Option α) :=
  x.bind fun y => told read name (some y)

/-- The fields that the console does not interpret. -/
def others (read : List (String × Json)) : Fields :=
  Fields.insertAll [] (read.filter fun field => field.1 ∉ knownNames)

/-- What the reader of a machine knows after some of its fields, in whatever order. -/
def draftAfter (m : Machine) (read : List (String × Json)) : Draft where
  id := told read "id" m.id
  address := told read "address" m.address
  agentPort := told read "agentPort" m.agentPort
  hostname := told read "hostname" m.hostname
  authorized := told read "authorized" m.authorized
  agentVersion := toldOptional read "agentVersion" m.agentVersion
  lastVisitedAt := toldOptional read "lastVisitedAt" m.lastVisitedAt
  error := toldOptional read "error" m.error
  extra := others read

section Told

variable {α : Type} {read : List (String × Json)} {name other : String} {x : α} {j : Json}

theorem told_eq_none (hnew : name ∉ read.map Prod.fst) : told read name x = none := if_neg hnew

theorem told_eq_some (hread : name ∈ read.map Prod.fst) : told read name x = some x := if_pos hread

theorem toldOptional_eq_none (hnew : name ∉ read.map Prod.fst) (x : Option α) :
    toldOptional read name x = none := by
  cases x with
  | none => rfl
  | some y => exact told_eq_none hnew

theorem join_toldOptional {x : Option α} (hread : ∀ y, x = some y → name ∈ read.map Prod.fst) :
    (toldOptional read name x).join = x := by
  cases x with
  | none => rfl
  | some y =>
    rw [toldOptional, Option.bind_some, told_eq_some (hread y rfl)]
    rfl

theorem draftAfter_nil (m : Machine) : m.draftAfter [] = {} := by
  have hnew : ∀ name, name ∉ ([] : List (String × Json)).map Prod.fst := fun _ => List.not_mem_nil
  simp only [draftAfter, told_eq_none (hnew _), toldOptional_eq_none (hnew _)]
  rfl

theorem told_concat :
    told (read ++ [(other, j)]) name x = if name = other then some x else told read name x := by
  have hmem : name ∈ (read ++ [(other, j)]).map Prod.fst ↔
      name = other ∨ name ∈ read.map Prod.fst := by
    rw [List.map_append, List.mem_append, or_comm]
    exact or_congr_left List.mem_singleton
  by_cases heq : name = other
  · rw [told_eq_some (hmem.2 (.inl heq)), if_pos heq]
  · simp only [told, hmem, heq, false_or, if_false]

theorem toldOptional_concat {x : Option α} : toldOptional (read ++ [(other, j)]) name x =
    if name = other then x.map some else toldOptional read name x := by
  cases x with
  | none => exact (ite_self none).symm
  | some y => exact told_concat

theorem told_concat_unknown (hother : other ∉ knownNames) (hname : name ∈ knownNames) :
    told (read ++ [(other, j)]) name x = told read name x := by
  have hne : name ≠ other := fun heq => hother (heq ▸ hname)
  rw [told_concat, if_neg hne]

theorem toldOptional_concat_unknown (hother : other ∉ knownNames) (hname : name ∈ knownNames)
    {x : Option α} : toldOptional (read ++ [(other, j)]) name x = toldOptional read name x := by
  have hne : name ≠ other := fun heq => hother (heq ▸ hname)
  rw [toldOptional_concat, if_neg hne]

theorem others_concat_known (hname : name ∈ knownNames) :
    others (read ++ [(name, j)]) = others read := by
  rw [others, List.filter_append, List.filter_cons_of_neg (by simpa using hname),
    List.filter_nil, List.append_nil]
  rfl

theorem others_concat (hname : name ∉ knownNames) :
    others (read ++ [(name, j)]) = (others read).insert name j := by
  rw [others, List.filter_append, List.filter_cons_of_pos (by simpa using hname),
    List.filter_nil, Fields.insertAll_concat]
  rfl

/-- A known field that was not read before is read back. -/
theorem takes_known (hname : name ∈ knownNames) {seen : Option α} {reader : Reader α}
    (keep : α → Draft) (hfield : readField depth name (m.draftAfter read) = once seen reader keep)
    (hseen : seen = none) (hreads : Reads reader layout x j) (hignores : IgnoresSpace reader)
    (hkeep : keep x = { m.draftAfter (read ++ [(name, j)]) with extra := others read }) :
    Takes (readField depth) layout (m.draftAfter read) [(name, j)]
      (m.draftAfter (read ++ [(name, j)])) := by
  have hkept : keep x = m.draftAfter (read ++ [(name, j)]) := by
    rw [hkeep, draftAfter, others_concat_known hname]
  rw [← hkept]
  refine .cons (fun tail hends => ?_) (.nil _)
  rw [hfield, hseen]
  exact once_written hreads hignores keep tail hends

end Told

/-- A field that was not read before is read back. -/
theorem takes_field (hwf : WellFormed depth m) (hint : IsIntegral m) (layout : Layout)
    {read : List (String × Json)} {field : String × Json} (hfield : field ∈ m.toFields)
    (hnew : field.1 ∉ read.map Prod.fst) : Takes (readField depth) layout (m.draftAfter read)
      [field] (m.draftAfter (read ++ [field])) := by
  -- A known field fills its own part of the draft, which is empty; any other one joins the rest.
  rcases List.mem_append.1 hfield with hknown | hextra
  · rcases mem_knownFields_cases hknown with rfl | rfl | rfl | rfl | rfl | ⟨s, hs, rfl⟩ |
      ⟨t, ht, rfl⟩ | ⟨s, hs, rfl⟩
    · exact takes_known (by decide) (fun n => { m.draftAfter read with id := some n }) rfl
        (told_eq_none hnew) (reads_integer layout (isKeptInt_id hwf) hwf.id.1 hwf.id.2)
        (ignoresSpace_integer _ _)
        (by simp only [draftAfter, told_concat, toldOptional_concat]; rfl)
    · exact takes_known (by decide) (fun s => { m.draftAfter read with address := some s }) rfl
        (told_eq_none hnew) (reads_text layout m.address) ignoresSpace_text
        (by simp only [draftAfter, told_concat, toldOptional_concat]; rfl)
    · exact takes_known (by decide) (fun n => { m.draftAfter read with agentPort := some n }) rfl
        (told_eq_none hnew) (reads_natural layout (isKeptInt_agentPort hwf) hwf.agentPort)
        (ignoresSpace_natural _)
        (by simp only [draftAfter, told_concat, toldOptional_concat]; rfl)
    · exact takes_known (by decide) (fun s => { m.draftAfter read with hostname := some s }) rfl
        (told_eq_none hnew) (reads_text layout m.hostname) ignoresSpace_text
        (by simp only [draftAfter, told_concat, toldOptional_concat]; rfl)
    · exact takes_known (by decide) (fun b => { m.draftAfter read with authorized := some b }) rfl
        (told_eq_none hnew) (reads_bool layout m.authorized) ignoresSpace_bool
        (by simp only [draftAfter, told_concat, toldOptional_concat]; rfl)
    · exact takes_known (by decide) (fun x => { m.draftAfter read with agentVersion := some x })
        rfl (toldOptional_eq_none hnew _) (reads_nullable (reads_text layout s))
        (ignoresSpace_nullable _)
        (by simp only [draftAfter, told_concat, toldOptional_concat, hs]; rfl)
    · have hvisit := reads_readInstant layout (hwf.lastVisitedAt t ht)
      exact takes_known (by decide) (fun x => { m.draftAfter read with lastVisitedAt := some x })
        rfl (toldOptional_eq_none hnew _) (reads_nullable hvisit) (ignoresSpace_nullable _)
        (by simp only [draftAfter, told_concat, toldOptional_concat, ht]; rfl)
    · exact takes_known (by decide) (fun x => { m.draftAfter read with error := some x }) rfl
        (toldOptional_eq_none hnew _) (reads_nullable (reads_text layout s))
        (ignoresSpace_nullable _)
        (by simp only [draftAfter, told_concat, toldOptional_concat, hs]; rfl)
  · obtain ⟨name, j⟩ := field
    have hname := hwf.names _ hextra
    have hreads := reads_value (hwf.extra.values _ hextra) (hint _ hextra) layout
    refine .cons (fun tail hends => ?_) (.nil _)
    rw [readField_unknown hname, afterColon_written (ignoresSpace_value depth),
      hreads.read tail hends]
    simp (disch := decide) only [Except.map, draftAfter, told_concat_unknown hname,
      toldOptional_concat_unknown hname, others_concat hname]

/-- Fields of a machine, each of which was not read before, are read back in any order. -/
theorem takes_fields (hwf : WellFormed depth m) (hint : IsIntegral m) (layout : Layout)
    {read fields : List (String × Json)} (hfields : ∀ field ∈ fields, field ∈ m.toFields)
    (hnodup : ((read ++ fields).map Prod.fst).Nodup) :
    Takes (readField depth) layout (m.draftAfter read) fields (m.draftAfter (read ++ fields)) := by
  induction fields generalizing read with
  | nil =>
    rw [List.append_nil]
    exact .nil _
  | cons field fields ih =>
    rw [List.forall_mem_cons] at hfields
    have hnew : field.1 ∉ read.map Prod.fst := by
      rw [List.map_append, List.nodup_append] at hnodup
      exact fun hmem => hnodup.2.2 _ hmem _ (List.mem_map_of_mem List.mem_cons_self) rfl
    rw [List.append_cons] at hnodup ⊢
    exact (takes_field hwf hint layout hfields.1 hnew).append (ih hfields.2 hnodup)

/-! ### Whole machines -/

theorem others_eq_extra (hwf : WellFormed depth m) {fields : List (String × Json)}
    (hperm : fields.Perm m.toFields) : others fields = m.extra := by
  have hfilter := hperm.filter fun field => field.1 ∉ knownNames
  rw [filter_toFields hwf] at hfilter
  have hall : (others fields).Perm (fields.filter fun field => field.1 ∉ knownNames) :=
    Fields.insertAll_perm ((hfilter.map Prod.fst).nodup_iff.2 hwf.extra.sorted.nodup)
  exact (Fields.Sorted.insertAll .nil _).eq_of_perm hwf.extra.sorted (hall.trans hfilter)

/-- All fields of a machine together describe the machine. -/
theorem toMachine_draftAfter (hwf : WellFormed depth m) {fields : List (String × Json)}
    (hperm : fields.Perm m.toFields) : (m.draftAfter fields).toMachine = .ok m := by
  have hnames : ∀ name, name ∈ m.toFields.map Prod.fst → name ∈ fields.map Prod.fst :=
    fun name => (hperm.map Prod.fst).mem_iff.2
  have hrequired : ∀ {α : Type} (name : String) (x : α), name ∈ requiredNames →
      told fields name x = some x := by
    refine fun name x hname => told_eq_some (hnames name ?_)
    rw [toFields_eq, knownFields]
    simp only [List.append_assoc, List.map_append]
    exact List.mem_append_left _ hname
  have hversion : (toldOptional fields "agentVersion" m.agentVersion).join = m.agentVersion :=
    join_toldOptional fun s hs => hnames _ (by simp [toFields, optionalField, hs])
  have hvisit : (toldOptional fields "lastVisitedAt" m.lastVisitedAt).join = m.lastVisitedAt :=
    join_toldOptional fun t ht => hnames _ (by simp [toFields, optionalField, ht])
  have hfault : (toldOptional fields "error" m.error).join = m.error :=
    join_toldOptional fun s hs => hnames _ (by simp [toFields, optionalField, hs])
  simp (disch := decide) only [Draft.toMachine, draftAfter, hrequired, hversion, hvisit, hfault,
    others_eq_extra hwf hperm, required, Option.getD_some]
  rfl

/-- A machine is read back from its fields, in whatever order they are written. -/
theorem read_fields (hwf : WellFormed depth m) (hint : IsIntegral m) (layout : Layout)
    {fields : List (String × Json)} (hperm : fields.Perm m.toFields) (tail : List Char) :
    Machine.read (depth + 1) (write layout (.object fields) ++ tail) = .ok (m, tail) := by
  have htakes : Takes (readField depth) layout.inner (m.draftAfter []) fields
      (m.draftAfter ([] ++ fields)) :=
    takes_fields hwf hint layout.inner (fun _ => hperm.mem_iff.1)
      ((hperm.map Prod.fst).nodup_iff.2 (nodup_toFields hwf))
  rw [draftAfter_nil, List.nil_append] at htakes
  obtain ⟨body, hbody, hmembers⟩ := members_object htakes tail
  apply object_written hbody
  exact bind_eq_ok.2 ⟨_, hmembers, bind_eq_ok.2 ⟨m, toMachine_draftAfter hwf hperm, rfl⟩⟩

theorem read_written (hwf : WellFormed depth m) (hint : IsIntegral m) (layout : Layout)
    (tail : List Char) :
    Machine.read (depth + 1) (write layout m.toJson ++ tail) = .ok (m, tail) :=
  read_fields hwf hint layout (.refl _) tail

theorem reads_toFields (hwf : WellFormed depth m) (hint : IsIntegral m) (layout : Layout) :
    ∀ field ∈ m.toFields, Reads (value depth) layout field.2 field.2 := by
  intro field hfield
  rcases List.mem_append.1 hfield with hknown | hextra
  · rcases mem_knownFields hknown with ⟨-, ⟨s, hs⟩ | ⟨b, hb⟩ | hid | hport⟩ | ⟨-, s, hs⟩
    · rw [hs]
      exact reads_value (.text depth s) (.text s) layout
    · rw [hb]
      exact reads_value (.bool depth b) (.bool b) layout
    · rw [hid]
      exact reads_value (.int depth (isKeptInt_id hwf)) (.int m.id) layout
    · rw [hport]
      exact reads_value (.int depth (isKeptInt_agentPort hwf)) (.int m.agentPort) layout
    · rw [hs]
      exact reads_value (.text depth s) (.text s) layout
  · exact reads_value (hwf.extra.values field hextra) (hint field hextra) layout

theorem objectFields_written (hwf : WellFormed depth m) (hint : IsIntegral m) (layout : Layout)
    (tail : List Char) :
    objectFields (depth + 1) (write layout m.toJson ++ tail) = .ok (m.toFields, tail) :=
  objectFields_object (readsFields_self (reads_toFields hwf hint layout.inner)) tail

theorem last?_toFields (hwf : WellFormed depth m) {name : String} (hname : name ∉ knownNames) :
    Fields.last? name m.toFields = Fields.get? name m.extra := by
  have hnot : ∀ field ∈ m.knownFields, field.1 ≠ name :=
    fun field hfield heq => hname (heq ▸ name_mem_knownNames hfield)
  rw [toFields_eq, Fields.last?_append hnot, hwf.extra.sorted.last?_eq]

/-- A machine that is written again is read as the same machine, and the text has the fields that
the console does not interpret with the values that they had last, and no fields besides those of
the text before but the ones that are always written. -/
theorem unchanged_when_rewritten {s : String} {m : Machine}
    (hread : document (Machine.read depthLimit) s = .ok m) (hint : m.IsIntegral)
    (layout : Layout) :
    document (Machine.read depthLimit) (String.ofList (write layout m.toJson)) = .ok m ∧
    ∃ before after, document (objectFields depthLimit) s = .ok before ∧
      document (objectFields depthLimit) (String.ofList (write layout m.toJson)) = .ok after ∧
      (∀ name ∉ knownNames, Fields.last? name after = Fields.last? name before) ∧
      ∀ field ∈ after, field.1 ∈ requiredNames ∨ ∃ j, (field.1, j) ∈ before := by
  obtain ⟨rest, hmachine, hend⟩ := document_eq_ok.1 hread
  obtain ⟨inner, before, hdepth, hbefore, hfrom⟩ := exists_fields hmachine
  have hwf := hfrom.wellFormed
  rw [hdepth] at hbefore ⊢
  refine ⟨document_ofList (read_written hwf hint layout []), before, m.toFields,
    document_eq_ok.2 ⟨rest, hbefore, hend⟩,
    document_ofList (objectFields_written hwf hint layout []), ?_, ?_⟩
  · intro name hname
    rw [last?_toFields hwf hname]
    exact hfrom.others name hname
  · intro field hfield
    rcases List.mem_append.1 hfield with hknown | hextra
    · rcases mem_knownFields hknown with ⟨hname, -⟩ | ⟨hoptional, -⟩
      · exact .inl hname
      · right
        rcases hoptional with ⟨hsome, hname⟩ | ⟨hsome, hname⟩ | ⟨hsome, hname⟩ <;> rw [hname]
        · exact hfrom.version hsome
        · exact hfrom.visit hsome
        · exact hfrom.fault hsome
    · right
      have hget := Fields.get?_eq_some_of_mem hwf.extra.sorted hextra
      rw [hfrom.others field.1 (hwf.names field hextra)] at hget
      exact ⟨field.2, Fields.mem_of_last?_eq_some hget⟩

/-- A machine with a repeated field, a leap second in another time zone, escapes and the least and
the greatest of the integers that are kept. -/
def visitedText : String :=
  "\x7b\"zone\": 1, \"id\": -9223372036854775808, \"error\": null, \"hostname\": \"a\\tb\",
    \"lastVisitedAt\": \"2016-12-31T18:59:60.5-05:00\", \"zone\": \x7b\"b\": 7,
    \"a\": \"\\u0001\\ud83d\\ude00\", \"b\": [18446744073709551615, \x7b\x7d]\x7d\x7d"

/-- The machine of that text. -/
def visited : Machine where
  id := -9223372036854775808
  hostname := "a\tb"
  lastVisitedAt := some ⟨1483228799, 1500000000⟩
  extra := [("zone", .object [("a", .text "\x01😀"),
    ("b", .array [.number (.int 18446744073709551615), .object []])])]

theorem visited_machine_rewritten :
    document (Machine.read depthLimit) visitedText = .ok visited ∧ visited.IsIntegral ∧
    document (Machine.read depthLimit) (compactText visited.toJson) = .ok visited ∧
    ∃ before after, document (objectFields depthLimit) visitedText = .ok before ∧
      document (objectFields depthLimit) (compactText visited.toJson) = .ok after ∧
      (∀ name ∉ knownNames, Fields.last? name after = Fields.last? name before) ∧
      ∀ field ∈ after, field.1 ∈ requiredNames ∨ ∃ j, (field.1, j) ∈ before := by
  have hread : document (Machine.read depthLimit) visitedText = .ok visited := by decide +kernel
  have hint : visited.IsIntegral := by
    intro field hfield
    cases List.mem_singleton.1 hfield
    apply Integral.object
    refine List.forall_mem_cons.2 ⟨.text _, List.forall_mem_singleton.2 (.array ?_)⟩
    exact List.forall_mem_cons.2 ⟨.int _, List.forall_mem_singleton.2 (.object (by simp))⟩
  exact ⟨hread, hint, unchanged_when_rewritten hread hint .compact⟩

end FleetConsole.Machine
