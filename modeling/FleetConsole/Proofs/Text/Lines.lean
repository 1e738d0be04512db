import FleetConsole.Proofs.Text.Chars

/-!
# Lines

A text has one line more than it has line breaks, and where texts are joined by line breaks, their
lines follow each other.
-/

namespace FleetConsole.Text

/-- The lines of a text; there is always at least one. -/
def lines (s : String) : List (List Char) := splitChars (· = '\n') s.toList

theorem length_splitChars (p : Char → Bool) (cs : List Char) :
    (splitChars p cs).length = cs.countP p + 1 := by
  induction cs with
  | nil => rfl
  | cons c cs ih =>
    rw [splitChars]
    split_ifs with hc
    · rw [List.length_cons, ih, List.countP_cons_of_pos hc]
    · rw [List.countP_cons_of_neg hc, ← ih]
      cases hparts : splitChars p cs with
      | nil => exact absurd hparts (splitChars_ne_nil p cs)
      | cons part parts => rfl

theorem length_lines (s : String) : (lines s).length = s.toList.count '\n' + 1 :=
  length_splitChars _ _

theorem lines_of_not_mem {s : String} (hs : '\n' ∉ s.toList) : lines s = [s.toList] :=
  splitChars_of_not_separator fun _ hc => decide_eq_false fun hbreak => hs (hbreak ▸ hc)

theorem joinWith_cons (separator part : String) {parts : List String} (hne : parts ≠ []) :
    joinWith separator (part :: parts) = part ++ separator ++ joinWith separator parts := by
  cases parts with
  | nil => exact absurd rfl hne
  | cons next parts => rfl

theorem lines_joinWith {parts : List String} (hne : parts ≠ []) :
    lines (joinWith "\n" parts) = parts.flatMap lines := by
  induction parts with
  | nil => exact absurd rfl hne
  | cons part parts ih =>
    by_cases hlast : parts = []
    · rw [hlast, joinWith, List.flatMap_singleton]
    · rw [joinWith_cons _ _ hlast, List.flatMap_cons, ← ih hlast, lines, String.toList_append,
        String.toList_append, List.append_assoc]
      exact splitChars_append (by decide) _ _

end FleetConsole.Text
