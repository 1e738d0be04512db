import FleetConsole.Json.Value
import Mathlib.Tactic.SplitIfs
import Mathlib.Tactic.ByContra

/-!
# Fields in the order of their names

Fields that are inserted one by one are in order, each name once, and none of them is lost unless
its name is repeated (`insertAll_perm`). There is only one such order (`Sorted.eq_of_perm`). In it a
name has the value that stands there with it (`get?_eq_some_of_mem`). Fields that came one after
another, repetitions included, are looked up from the back (`last?`).
-/

namespace FleetConsole.Json.Fields

/-- Every name stands once, and the names are in order. -/
def Sorted (fields : Fields) : Prop := fields.Pairwise fun a b => a.1 < b.1

variable {name other : String} {value : Json} {fields : Fields}

theorem lt_of_not_lt (hne : name ≠ other) (hnot : ¬name < other) : other < name := by
  by_contra hother
  exact hne (String.le_antisymm (String.not_lt.1 hother) (String.not_lt.1 hnot))

/-! ### Insertion -/

theorem mem_insert {field : String × Json} (hmem : field ∈ insert name value fields) :
    field = (name, value) ∨ field ∈ fields := by
  induction fields with
  | nil => exact .inl (List.mem_singleton.1 hmem)
  | cons head rest ih =>
    rw [insert] at hmem
    split_ifs at hmem
    · rcases List.mem_cons.1 hmem with heq | hrest
      · exact .inl heq
      · exact .inr (List.mem_cons_of_mem _ hrest)
    · exact List.mem_cons.1 hmem
    · rcases List.mem_cons.1 hmem with rfl | hrest
      · exact .inr List.mem_cons_self
      · exact (ih hrest).imp_right (List.mem_cons_of_mem _)

theorem Sorted.insert (hsorted : Sorted fields) : Sorted (insert name value fields) := by
  induction fields with
  | nil => exact List.pairwise_singleton _ _
  | cons head rest ih =>
    obtain ⟨hhead, hrest⟩ := List.pairwise_cons.1 hsorted
    rw [Fields.insert]
    split_ifs with heq hlt
    · rw [heq]
      exact List.pairwise_cons.2 ⟨hhead, hrest⟩
    · refine List.pairwise_cons.2 ⟨?_, hsorted⟩
      intro field hfield
      rcases List.mem_cons.1 hfield with rfl | hfield
      · exact hlt
      · exact String.lt_trans hlt (hhead field hfield)
    · refine List.pairwise_cons.2 ⟨?_, ih hrest⟩
      intro field hfield
      rcases mem_insert hfield with rfl | hfield
      · exact lt_of_not_lt heq hlt
      · exact hhead field hfield

theorem insert_perm (hnot : ∀ field ∈ fields, field.1 ≠ name) :
    (insert name value fields).Perm ((name, value) :: fields) := by
  induction fields with
  | nil => exact .refl _
  | cons head rest ih =>
    rw [List.forall_mem_cons] at hnot
    rw [insert, if_neg hnot.1.symm]
    split_ifs
    · exact .refl _
    · exact ((ih hnot.2).cons head).trans (.swap _ _ rest)

/-- Fields inserted one after another. -/
def insertAll (prior : Fields) (fields : List (String × Json)) : Fields :=
  fields.foldl (fun kept field => kept.insert field.1 field.2) prior

theorem insertAll_concat (prior : Fields) (fields : List (String × Json)) (field : String × Json) :
    insertAll prior (fields ++ [field]) = (insertAll prior fields).insert field.1 field.2 :=
  List.foldl_append

theorem Sorted.insertAll {prior : Fields} (hsorted : Sorted prior)
    (fields : List (String × Json)) : Sorted (insertAll prior fields) := by
  induction fields generalizing prior with
  | nil => exact hsorted
  | cons field fields ih => exact ih hsorted.insert

/-- Where each name stands once, no field is lost. -/
theorem insertAll_perm {prior : Fields} {fields : List (String × Json)}
    (hnodup : ((prior ++ fields).map Prod.fst).Nodup) :
    (insertAll prior fields).Perm (prior ++ fields) := by
  induction fields generalizing prior with
  | nil => exact .of_eq (List.append_nil prior).symm
  | cons field fields ih =>
    have hnot : ∀ other ∈ prior, other.1 ≠ field.1 := by
      rw [List.map_append, List.nodup_append] at hnodup
      exact fun other hother => hnodup.2.2 _ (List.mem_map_of_mem hother) _
        (List.mem_map_of_mem List.mem_cons_self)
    have hfirst : (prior.insert field.1 field.2).Perm (field :: prior) := insert_perm hnot
    have hmiddle : (prior.insert field.1 field.2 ++ fields).Perm (prior ++ field :: fields) :=
      (hfirst.append_right fields).trans List.perm_middle.symm
    exact (ih ((hmiddle.map Prod.fst).nodup_iff.2 hnodup)).trans hmiddle

theorem Sorted.nodup (hsorted : Sorted fields) : (fields.map Prod.fst).Nodup := by
  refine List.pairwise_map.2 (List.Pairwise.imp ?_ hsorted)
  exact fun {a b} hlt heq => String.lt_irrefl b.1 (heq ▸ hlt)

/-- The order of the names leaves only one way to arrange fields. -/
theorem Sorted.eq_of_perm {other : Fields} (hsorted : Sorted fields) (hother : Sorted other)
    (hperm : fields.Perm other) : fields = other :=
  hperm.eq_of_pairwise (fun _ _ _ _ hlt hgt => absurd hgt (String.lt_asymm hlt)) hsorted hother

/-- Fields in order stay as they are. -/
theorem Sorted.insertAll_eq (hsorted : Sorted fields) : Fields.insertAll [] fields = fields :=
  (Sorted.insertAll .nil fields).eq_of_perm hsorted (insertAll_perm hsorted.nodup)

/-! ### Looking up -/

theorem mem_of_get?_eq_some (hget : get? name fields = some value) : (name, value) ∈ fields := by
  induction fields with
  | nil => cases hget
  | cons head rest ih =>
    rw [get?] at hget
    split_ifs at hget with heq
    · cases hget
      rw [heq]
      exact List.mem_cons_self
    · exact List.mem_cons_of_mem _ (ih hget)

theorem get?_eq_some_of_mem (hsorted : Sorted fields) (hmem : (name, value) ∈ fields) :
    get? name fields = some value := by
  induction fields with
  | nil => cases hmem
  | cons head rest ih =>
    obtain ⟨hhead, hrest⟩ := List.pairwise_cons.1 hsorted
    rcases List.mem_cons.1 hmem with rfl | hmem
    · exact if_pos rfl
    · have hlt : head.1 < name := hhead (name, value) hmem
      have hne : name ≠ head.1 := fun heq => String.lt_irrefl _ (heq ▸ hlt)
      rw [get?, if_neg hne]
      exact ih hrest hmem

theorem get?_eq_none (hnot : ∀ field ∈ fields, field.1 ≠ name) : get? name fields = none := by
  induction fields with
  | nil => rfl
  | cons head rest ih =>
    rw [List.forall_mem_cons] at hnot
    rw [get?, if_neg hnot.1.symm, ih hnot.2]

theorem get?_append (name : String) (fields later : Fields) :
    get? name (fields ++ later) = (get? name fields).or (get? name later) := by
  induction fields with
  | nil => rfl
  | cons head rest ih =>
    rw [List.cons_append, get?, get?]
    split_ifs
    · rfl
    · exact ih

/-- The value of a name at its last occurrence. -/
def last? (name : String) (fields : Fields) : Option Json := get? name fields.reverse

theorem last?_concat : last? name (fields ++ [(other, value)]) =
    if name = other then some value else last? name fields := by
  rw [last?, List.reverse_append]
  rfl

theorem last?_append (hnot : ∀ field ∈ fields, field.1 ≠ name) (later : Fields) :
    last? name (fields ++ later) = last? name later := by
  have hnone : get? name fields.reverse = none :=
    get?_eq_none fun field hfield => hnot field (List.mem_reverse.1 hfield)
  rw [last?, last?, List.reverse_append, get?_append, hnone, Option.or_none]

theorem mem_of_last?_eq_some (hlast : last? name fields = some value) : (name, value) ∈ fields :=
  List.mem_reverse.1 (mem_of_get?_eq_some hlast)

/-- Where each name stands once, the last occurrence is the first one. -/
theorem Sorted.last?_eq (hsorted : Sorted fields) (name : String) :
    last? name fields = get? name fields := by
  cases hlast : last? name fields with
  | some value => exact (get?_eq_some_of_mem hsorted (mem_of_last?_eq_some hlast)).symm
  | none =>
    cases hget : get? name fields with
    | none => rfl
    | some value =>
      have hmem := List.mem_reverse.2 (mem_of_get?_eq_some hget)
      obtain ⟨first, later, hsplit⟩ := List.append_of_mem hmem
      rw [last?, hsplit, get?_append, get?, if_pos rfl] at hlast
      cases hfirst : get? name first <;> rw [hfirst] at hlast <;> cases hlast

end FleetConsole.Json.Fields
