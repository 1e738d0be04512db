import FleetConsole.Proofs.Text.Chars
import FleetConsole.Server.Answer

/-!
# Names in quotes

The field of a dump names it, between quotes. The field is parted at its semicolons before anything
else, so the name is what stands between the quotes only as long as there is no semicolon in it.
Nothing else in a name matters: not a blank at its ends, not an equals sign, not the beginning of
another name (`quoted_name_kept_iff`). A semicolon cuts the name off, and the blanks before it too.
-/

namespace FleetConsole.Server

open Text

/-- The value of a field that names an attachment. -/
def disposition (name : String) : String :=
  "attachment; filename=\"" ++ name ++ "\""

/-- A name that can stand between quotes as it is. -/
structure IsQuotable (name : String) : Prop where
  nonempty : name ≠ ""
  visible : ∀ c ∈ name.toList, 0x20 ≤ c.toNat ∧ c.toNat ≤ 0x7E
  quote : '"' ∉ name.toList
  backslash : '\\' ∉ name.toList

theorem toList_disposition (name : String) : (disposition name).toList =
    "attachment".toList ++ ';' :: (" filename=\"".toList ++ (name.toList ++ ['"'])) := by
  have hstart : "attachment; filename=\"".toList =
      "attachment".toList ++ ';' :: " filename=\"".toList := by decide
  have hend : "\"".toList = ['"'] := by decide
  have hparts : (disposition name).toList =
      "attachment; filename=\"".toList ++ name.toList ++ "\"".toList :=
    String.toList_append.trans (congrArg (· ++ _) String.toList_append)
  rw [hparts, hstart, hend, List.append_assoc, List.append_assoc, List.cons_append]

theorem trimChars_named (cs : List Char) : trimChars (" filename=\"".toList ++ cs) =
    fileNameStart.toList ++ '"' :: dropEndWhile isBlank cs := by
  have hstart : dropBlank (" filename=\"".toList ++ cs) = fileNameStart.toList ++ '"' :: cs := rfl
  rw [trimChars, hstart, dropEndWhile_append_cons (by decide)]

/-- Of what follows the opening quote, only the part before the first semicolon counts. -/
theorem attachmentName?_of_first {cs first : List Char} {parts : List (List Char)}
    (hparts : splitChars (· = ';') cs = first :: parts) :
    attachmentName? ("attachment".toList ++ ';' :: (" filename=\"".toList ++ cs)) =
      let name := dropEndWhile (· = '"') ((dropEndWhile isBlank first).dropWhile (· = '"'))
      if name.isEmpty then none else some (String.ofList name) := by
  have hsplit : splitChars (· = ';') ("attachment".toList ++ ';' :: (" filename=\"".toList ++ cs)) =
      "attachment".toList :: (" filename=\"".toList ++ first) :: parts := by
    rw [splitChars_append (by decide),
      splitChars_of_not_separator (List.all_iff_forall_prop.1 (by decide))]
    simp [splitChars, hparts]
  have hnone : afterStart? fileNameStart.toList (trimChars "attachment".toList) = none := by decide
  rw [attachmentName?, hsplit, List.map_cons, List.map_cons, List.findSome?_cons, hnone,
    trimChars_named, List.findSome?_cons, afterStart?_append]
  simp

section Name

variable {cs : List Char} (hquote : '"' ∉ cs)

include hquote

theorem dropWhile_quote (later : List Char) (hsome : cs ≠ []) :
    (cs ++ later).dropWhile (· = '"') = cs ++ later := by
  cases cs with
  | nil => exact absurd rfl hsome
  | cons c cs =>
    have hc : c ≠ '"' := fun hc => hquote (hc ▸ List.mem_cons_self)
    rw [List.cons_append, List.dropWhile_cons_of_neg (by simpa using hc)]

theorem dropEndWhile_quote : dropEndWhile (· = '"') cs = cs := by
  refine dropEndWhile_eq_self fun c hlast => decide_eq_false ?_
  rintro rfl
  exact hquote (List.mem_of_getLast? hlast)

/-- A name without a semicolon ends at the closing quote. -/
theorem attachmentName?_whole (hsome : cs ≠ []) (hnone : ';' ∉ cs) :
    attachmentName? ("attachment".toList ++ ';' :: (" filename=\"".toList ++ (cs ++ ['"']))) =
      some (String.ofList cs) := by
  have hparts : splitChars (· = ';') (cs ++ ['"']) = [cs ++ ['"']] := by
    refine splitChars_of_not_separator fun c hc => decide_eq_false ?_
    rintro rfl
    rcases List.mem_append.1 hc with hc | hc
    · exact hnone hc
    · cases List.mem_singleton.1 hc
  have hclosed : dropEndWhile isBlank (cs ++ ['"']) = cs ++ ['"'] :=
    dropEndWhile_append_cons (by decide) cs []
  have hend : dropEndWhile (· = '"') (cs ++ ['"']) = cs := by
    rw [dropEndWhile, List.reverse_append, List.reverse_singleton, List.singleton_append,
      List.dropWhile_cons_of_pos (by decide)]
    exact dropEndWhile_quote hquote
  have hempty : cs.isEmpty = false := by simpa using hsome
  simp only [attachmentName?_of_first hparts, hclosed, dropWhile_quote hquote _ hsome, hend, hempty,
    Bool.false_eq_true, if_false]

/-- A semicolon ends a name, with the blanks in front of it. -/
theorem attachmentName?_cut (hnone : ';' ∉ cs) (later : List Char) :
    attachmentName? ("attachment".toList ++
        ';' :: (" filename=\"".toList ++ (cs ++ ';' :: later))) =
      if (dropEndWhile isBlank cs).isEmpty then none
      else some (String.ofList (dropEndWhile isBlank cs)) := by
  have hparts : splitChars (· = ';') (cs ++ ';' :: later) = cs :: splitChars (· = ';') later := by
    rw [splitChars_append (by decide), splitChars_of_not_separator]
    · rfl
    · rintro c hc
      refine decide_eq_false ?_
      rintro rfl
      exact hnone hc
  have hkept : '"' ∉ dropEndWhile isBlank cs :=
    fun hmem => hquote ((isPrefix_dropEndWhile isBlank cs).subset hmem)
  rw [attachmentName?_of_first hparts]
  generalize dropEndWhile isBlank cs = kept at hkept ⊢
  by_cases hsome : kept = []
  · rw [hsome]
    rfl
  · have hfront := dropWhile_quote hkept [] hsome
    rw [List.append_nil] at hfront
    simp only [hfront, dropEndWhile_quote hkept]

end Name

/-- A name in quotes is read as it is exactly if it has no semicolon. If it has one, what is read is
what stands before the first one, without the blanks at its end, or nothing. -/
theorem quoted_name_kept_iff {name : String} (hname : IsQuotable name) :
    (attachmentName? (disposition name).toList = some name ↔ ';' ∉ name.toList) ∧
      ∀ front back, name.toList = front ++ ';' :: back → ';' ∉ front →
        attachmentName? (disposition name).toList =
          if (dropEndWhile isBlank front).isEmpty then none
          else some (String.ofList (dropEndWhile isBlank front)) := by
  have hcut : ∀ front back, name.toList = front ++ ';' :: back → ';' ∉ front →
      attachmentName? (disposition name).toList =
        if (dropEndWhile isBlank front).isEmpty then none
        else some (String.ofList (dropEndWhile isBlank front)) := by
    intro front back hchars hnone
    have hquote : '"' ∉ front := by
      intro hmem
      exact hname.quote (by rw [hchars]; exact List.mem_append_left _ hmem)
    rw [toList_disposition, hchars, List.append_assoc, List.cons_append]
    exact attachmentName?_cut hquote hnone _
  refine ⟨⟨fun hkept hmem => ?_, fun hnone => ?_⟩, hcut⟩
  · obtain ⟨front, back, hchars, hnone⟩ := List.eq_append_cons_of_mem hmem
    rw [hcut front back hchars hnone] at hkept
    split_ifs at hkept
    -- What is read has no semicolon, and so is not the name.
    have hsame : name.toList = dropEndWhile isBlank front := by
      rw [← Option.some.inj hkept, String.toList_ofList]
    rw [hsame] at hmem
    exact hnone ((isPrefix_dropEndWhile isBlank front).subset hmem)
  · have hsome : name.toList ≠ [] := fun hnil => hname.nonempty (String.toList_eq_nil_iff.1 hnil)
    rw [toList_disposition, attachmentName?_whole hname.quote hsome hnone, String.ofList_toList]

theorem quoted_name_with_marks_kept :
    IsQuotable " a=b, filename='x'.tgz " ∧
      attachmentName? (disposition " a=b, filename='x'.tgz ").toList =
        some " a=b, filename='x'.tgz " := by
  have hname : IsQuotable " a=b, filename='x'.tgz " :=
    ⟨by decide, List.all_iff_forall_prop.1 (by decide), by decide, by decide⟩
  exact ⟨hname, (quoted_name_kept_iff hname).1.2 (by decide)⟩

theorem quoted_name_cut :
    IsQuotable "backup;1.tar.gz" ∧
      attachmentName? (disposition "backup;1.tar.gz").toList = some "backup" :=
  ⟨⟨by decide, List.all_iff_forall_prop.1 (by decide), by decide, by decide⟩, by decide⟩

end FleetConsole.Server
