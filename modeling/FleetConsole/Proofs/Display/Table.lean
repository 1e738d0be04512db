import FleetConsole.Display.Table
import FleetConsole.Proofs.Text.Lines
import Mathlib.Algebra.GroupWithZero.Nat
import Mathlib.Data.List.Forall2
import Mathlib.Order.Bounds.Basic

/-!
# Aligned columns

The widths of the columns are the greatest numbers of characters in their cells
(`widest_columnWidths`), so the cells of a row fit, and each cell stands where the columns before it
end (`lineOf_rowText`). The line of a row breaks only where a cell does (`count_rowText`). Without
line breaks in the cells a table is therefore one line for each row, in aligned columns
(`columns_align`).
-/

namespace FleetConsole.Display

open Text

/-! ### Widths -/

/-- The greatest number of characters in the cells of a column. -/
def Widest (rows : List (List String)) (i width : Nat) : Prop :=
  IsGreatest {n | ∃ row ∈ rows, ∃ cell, row[i]? = some cell ∧ cell.length = n} width

theorem getElem?_widen (widths : List Nat) (cells : List String) (i : Nat) :
    (widen widths cells)[i]? =
      widths[i]?.map fun width => max width ((cells[i]?.map String.length).getD 0) := by
  induction widths generalizing cells i with
  | nil => simp [widen]
  | cons width widths ih =>
    cases cells with
    | nil => simp [widen]
    | cons cell cells => cases i <;> simp [widen, ih]

theorem length_widen (widths : List Nat) (cells : List String) :
    (widen widths cells).length = widths.length := by
  induction widths generalizing cells with
  | nil => simp [widen]
  | cons width widths ih => cases cells <;> simp [widen, ih]

theorem Widest.concat {rows : List (List String)} {i width : Nat} (hwidest : Widest rows i width)
    (cells : List String) :
    Widest (rows ++ [cells]) i (max width ((cells[i]?.map String.length).getD 0)) := by
  have hunion : {n | ∃ row ∈ rows ++ [cells], ∃ cell, row[i]? = some cell ∧ cell.length = n} =
      {n | ∃ row ∈ rows, ∃ cell, row[i]? = some cell ∧ cell.length = n} ∪
        {n | ∃ cell, cells[i]? = some cell ∧ cell.length = n} := by
    ext n
    simp [or_and_right, exists_or]
  rw [Widest, hunion]
  cases hcell : cells[i]? with
  | none =>
    rw [Option.map_none, Option.getD_none, Nat.max_zero]
    simpa [Widest] using hwidest
  | some cell =>
    refine hwidest.union ?_
    simp

theorem widest_foldl {seen rows : List (List String)} {widths : List Nat}
    (hseen : ∀ i width, widths[i]? = some width → Widest seen i width) {i width : Nat}
    (hwidth : (rows.foldl widen widths)[i]? = some width) : Widest (seen ++ rows) i width := by
  -- The induction is on the rows to come; `seen` are those that the widths hold already.
  induction rows generalizing seen widths with
  | nil =>
    rw [List.append_nil]
    exact hseen i width hwidth
  | cons row rows ih =>
    rw [← List.singleton_append, ← List.append_assoc]
    refine ih (fun j other hother => ?_) hwidth
    rw [getElem?_widen, Option.map_eq_some_iff] at hother
    obtain ⟨before, hbefore, rfl⟩ := hother
    exact (hseen j before hbefore).concat row

/-- Every column is as wide as its widest cell, the header included. -/
theorem widest_columnWidths (headers : List String) (rows : List (List String)) {i width : Nat}
    (hwidth : (columnWidths headers rows)[i]? = some width) : Widest (headers :: rows) i width := by
  have hstart : ∀ j other, (headers.map String.length)[j]? = some other →
      Widest [headers] j other := by
    intro j other hother
    rw [List.getElem?_map, Option.map_eq_some_iff] at hother
    obtain ⟨header, hheader, rfl⟩ := hother
    refine ⟨⟨headers, List.mem_singleton_self _, header, hheader, rfl⟩, ?_⟩
    rintro n ⟨row, hrow, cell, hcell, rfl⟩
    rw [List.mem_singleton.1 hrow, hheader, Option.some.injEq] at hcell
    exact hcell ▸ Nat.le_refl _
  exact widest_foldl hstart hwidth

theorem length_columnWidths (headers : List String) (rows : List (List String)) :
    (columnWidths headers rows).length = headers.length := by
  rw [columnWidths]
  suffices hfold : ∀ widths, (rows.foldl widen widths).length = widths.length by
    rw [hfold, List.length_map]
  intro widths
  induction rows generalizing widths with
  | nil => rfl
  | cons row rows ih => rw [List.foldl_cons, ih, length_widen]

/-- The cells of a row fit into the columns. -/
abbrev Fits (widths : List Nat) (cells : List String) : Prop :=
  List.Forall₂ (fun width cell => cell.length ≤ width) widths cells

theorem fits_columnWidths {headers cells : List String} {rows : List (List String)}
    (hcells : cells ∈ headers :: rows) (hlength : cells.length = headers.length) :
    Fits (columnWidths headers rows) cells := by
  refine List.forall₂_iff_get.2 ⟨(length_columnWidths headers rows).trans hlength.symm, ?_⟩
  intro i hwidth hcell
  refine (widest_columnWidths headers rows (List.getElem?_eq_getElem hwidth)).2 ?_
  exact ⟨cells, hcells, _, List.getElem?_eq_getElem hcell, rfl⟩

/-! ### Rows -/

/-- Where a column begins. -/
def columnStart (widths : List Nat) (i : Nat) : Nat :=
  ((widths.take i).map (· + 2)).sum

/-- A line shows cells in their columns. -/
structure LineOf (widths : List Nat) (cells : List String) (line : List Char) : Prop where
  /-- From its column to the next there is a cell and blanks only. -/
  cell : ∀ i width cell, widths[i]? = some width → cells[i]? = some cell → i + 1 < cells.length →
    line.extract (columnStart widths i) (columnStart widths (i + 1)) =
      cell.toList ++ List.replicate (width - cell.length + 2) ' '
  /-- From the column of the last cell on there is only this cell. -/
  last : ∀ cell, cells.getLast? = some cell →
    line.drop (columnStart widths (cells.length - 1)) = cell.toList
  /-- Nothing is shown of no cells. -/
  empty : cells = [] → line = []
  /-- A blank at the end of the line stands at the end of the last cell, unless that is empty. -/
  blank : ∀ c, line.getLast? = some c → isBlank c = true →
    ∃ cell, cells.getLast? = some cell ∧ (cell = "" ∨ cell.toList.getLast? = some c)

theorem columnStart_cons (width : Nat) (widths : List Nat) (i : Nat) :
    columnStart (width :: widths) (i + 1) = width + 2 + columnStart widths i := by
  simp [columnStart]

namespace LineOf

variable {width : Nat} {widths : List Nat} {cell : String} {cells : List String} {line : List Char}

theorem nil : LineOf [] [] [] := by
  constructor <;> simp

theorem single (width : Nat) (cell : String) : LineOf [width] [cell] cell.toList where
  cell i _ _ _ _ hnext := absurd hnext (by simp)
  last other hother := by
    rw [List.getLast?_singleton, Option.some.injEq] at hother
    rw [← hother]
    rfl
  empty hnone := by cases hnone
  blank c hc _ := ⟨cell, rfl, .inr hc⟩

/-- One more column in front of a line. -/
theorem cons (hline : LineOf widths cells line) (hne : cells ≠ []) (hfits : cell.length ≤ width) :
    LineOf (width :: widths) (cell :: cells)
      (cell.toList ++ List.replicate (width - cell.length + 2) ' ' ++ line) := by
  -- What is put in front is as long as the first column, so all others begin that much later.
  have hfront : (cell.toList ++ List.replicate (width - cell.length + 2) ' ').length =
      width + 2 := by
    rw [List.length_append, List.length_replicate, String.length_toList]
    omega
  have hlast : (cell :: cells).getLast? = cells.getLast? := by
    obtain ⟨next, others, rfl⟩ := List.exists_cons_of_ne_nil hne
    exact List.getLast?_cons_cons
  constructor
  case cell =>
    intro i other text hwidth htext hnext
    cases i with
    | zero =>
      cases hwidth
      cases htext
      rw [List.extract_eq_take_drop, columnStart_cons]
      exact List.take_left' (by simpa [columnStart] using hfront)
    | succ i =>
      rw [columnStart_cons, columnStart_cons, ← hline.cell i other text hwidth htext
        (by simpa using hnext), List.extract_eq_take_drop, List.extract_eq_take_drop, ← hfront,
        List.drop_length_add_append, Nat.add_sub_add_left]
  case last =>
    intro other hother
    have hpositive := List.length_pos_iff.2 hne
    rw [hlast] at hother
    rw [← hline.last other hother, List.length_cons, Nat.add_sub_cancel,
      show cells.length = cells.length - 1 + 1 by omega, columnStart_cons, ← hfront,
      List.drop_length_add_append, Nat.add_sub_cancel]
  case empty =>
    intro hnone
    cases hnone
  case blank =>
    intro c hc hblank
    rw [hlast]
    by_cases hshown : line = []
    · obtain ⟨other, hother⟩ := List.getLast?_isSome.2 hne |> Option.isSome_iff_exists.1
      have hempty := hline.last other hother
      rw [hshown, List.drop_nil] at hempty
      exact ⟨other, hother, .inl (String.toList_eq_nil_iff.1 hempty.symm)⟩
    · rw [List.getLast?_append_of_ne_nil _ hshown] at hc
      exact hline.blank c hc hblank

end LineOf

theorem toList_padRight (width : Nat) (cell : String) :
    (padRight width cell).toList = cell.toList ++ List.replicate (width - cell.length) ' ' := by
  rw [padRight, String.toList_append, String.toList_ofList]

theorem padCells_cons (width : Nat) (widths : List Nat) (cell : String) {cells : List String}
    (hne : cells ≠ []) :
    padCells (width :: widths) (cell :: cells) = padRight width cell :: padCells widths cells := by
  obtain ⟨next, others, rfl⟩ := List.exists_cons_of_ne_nil hne
  rfl

theorem padCells_ne_nil {widths : List Nat} {cells : List String} (hfits : Fits widths cells)
    (hne : cells ≠ []) : padCells widths cells ≠ [] := by
  cases hfits with
  | nil => exact absurd rfl hne
  | @cons width cell widths cells =>
    by_cases hend : cells = []
    · rw [hend, padCells]
      exact List.cons_ne_nil _ _
    · rw [padCells_cons width widths cell hend]
      exact List.cons_ne_nil _ _

theorem toList_rowText_cons {width : Nat} {widths : List Nat} {cell : String} {cells : List String}
    (hfits : Fits widths cells) (hne : cells ≠ []) :
    (rowText (width :: widths) (cell :: cells)).toList =
      cell.toList ++ List.replicate (width - cell.length + 2) ' ' ++
        (rowText widths cells).toList := by
  rw [rowText, padCells_cons width widths cell hne, joinWith_cons _ _ (padCells_ne_nil hfits hne),
    String.toList_append, String.toList_append, toList_padRight, List.replicate_add,
    ← List.append_assoc]
  rfl

/-- A row whose cells fit shows them in their columns. -/
theorem lineOf_rowText {widths : List Nat} {cells : List String} (hfits : Fits widths cells) :
    LineOf widths cells (rowText widths cells).toList := by
  induction hfits with
  | nil => exact .nil
  | @cons width cell widths cells hcell hfits ih =>
    by_cases hend : cells = []
    · subst hend
      cases hfits
      exact .single width cell
    · rw [toList_rowText_cons hfits hend]
      exact ih.cons hend hcell

/-- A character that is no blank occurs on the line of a row as often as in its cells. -/
theorem count_rowText {widths : List Nat} {cells : List String} (hfits : Fits widths cells)
    {c : Char} (hc : c ≠ ' ') :
    (rowText widths cells).toList.count c = (cells.map fun cell => cell.toList.count c).sum := by
  induction hfits with
  | nil => rfl
  | @cons width cell widths cells hcell hfits ih =>
    by_cases hend : cells = []
    · subst hend
      cases hfits
      rfl
    · rw [toList_rowText_cons hfits hend, List.count_append, List.count_append, ih,
        List.count_replicate, List.map_cons, List.sum_cons]
      simp [Ne.symm hc]

/-! ### Tables -/

theorem canPad_iff {widths : List Nat} {cells : List String}
    (hlength : cells.length = widths.length) : canPad widths cells = true ↔
      ∀ i width, widths[i]? = some width → i + 1 < cells.length → width ≤ maxWidth := by
  induction widths generalizing cells with
  | nil => simp [canPad]
  | cons width widths ih =>
    match cells, hlength with
    | [cell], _ => simp [canPad]
    | cell :: next :: cells, hlength =>
      have hlater : (next :: cells).length = widths.length := Nat.succ.inj hlength
      have hrest := ih hlater
      rw [canPad, Bool.and_eq_true, decide_eq_true_iff, hrest]
      · constructor
        · rintro ⟨hfirst, hothers⟩ (- | i) other hother hnext
          · cases hother
            exact hfirst
          · exact hothers i other hother (Nat.lt_of_succ_lt_succ hnext)
        · intro hall
          exact ⟨hall 0 width rfl (by simp), fun i other hother hnext =>
            hall (i + 1) other hother (Nat.succ_lt_succ hnext)⟩
      · exact fun hnone => by simp at hnone

theorem mem_dropLast_iff {row : List String} {cell : String} :
    cell ∈ row.dropLast ↔ ∃ i, row[i]? = some cell ∧ i + 1 < row.length := by
  rw [List.mem_iff_getElem?]
  refine exists_congr fun i => ?_
  rw [List.getElem?_dropLast]
  split_ifs with hi
  · exact ⟨fun hcell => ⟨hcell, by omega⟩, And.left⟩
  · exact ⟨nofun, fun hcell => absurd hcell.2 (by omega)⟩

/-- Rows can be written as a table exactly if every cell that is padded, which the last one of a row
is not, can be. -/
theorem canTabulate_iff {headers : List String} {rows : List (List String)}
    (hcells : ∀ row ∈ rows, row.length = headers.length) : canTabulate headers rows = true ↔
      ∀ row ∈ headers :: rows, ∀ cell ∈ row.dropLast, cell.length ≤ maxWidth := by
  have hlengths : ∀ row ∈ headers :: rows, row.length = (columnWidths headers rows).length := by
    rw [length_columnWidths]
    exact List.forall_mem_cons.2 ⟨rfl, hcells⟩
  rw [canTabulate, List.all_eq_true]
  constructor
  · intro hall row hrow cell hcell
    obtain ⟨i, hcell, hnext⟩ := mem_dropLast_iff.1 hcell
    have hi : i < (columnWidths headers rows).length := by
      rw [← hlengths row hrow]
      omega
    have hwidth := List.getElem?_eq_getElem hi
    have hwidest := widest_columnWidths headers rows hwidth
    refine Nat.le_trans (hwidest.2 ⟨row, hrow, cell, hcell, rfl⟩) ?_
    exact (canPad_iff (hlengths row hrow)).1 (hall row hrow) i _ hwidth hnext
  · intro hall row hrow
    refine (canPad_iff (hlengths row hrow)).2 fun i width hwidth hnext => ?_
    obtain ⟨other, hother, cell, hcell, rfl⟩ := (widest_columnWidths headers rows hwidth).1
    refine hall other hother cell (mem_dropLast_iff.2 ⟨i, hcell, ?_⟩)
    rwa [hlengths other hother, ← hlengths row hrow]

/-- The lines of a table are those of its header, and then those of each row. -/
theorem lines_table (headers : List String) (rows : List (List String)) :
    lines (table headers rows) =
      (headers :: rows).flatMap fun cells => lines (rowText (columnWidths headers rows) cells) := by
  rw [table, lines_joinWith (mt List.map_eq_nil_iff.1 (List.cons_ne_nil _ _)), List.flatMap_map]

theorem lines_rowText {widths : List Nat} {cells : List String} (hfits : Fits widths cells)
    (hbreaks : ∀ cell ∈ cells, '\n' ∉ cell.toList) :
    lines (rowText widths cells) = [(rowText widths cells).toList] := by
  refine lines_of_not_mem (List.count_eq_zero.1 ?_)
  rw [count_rowText hfits (by decide), List.sum_eq_zero_iff_forall_eq_nat, List.forall_mem_map]
  exact fun cell hcell => List.count_eq_zero.2 (hbreaks cell hcell)

/-- Where no cell has a line break, each row is one line that shows its cells. -/
theorem lineOf_table {headers : List String} {rows : List (List String)}
    (hcells : ∀ row ∈ rows, row.length = headers.length)
    (hbreaks : ∀ row ∈ headers :: rows, ∀ cell ∈ row, '\n' ∉ cell.toList) :
    List.Forall₂ (LineOf (columnWidths headers rows)) (headers :: rows)
      (lines (table headers rows)) := by
  have hlengths : ∀ row ∈ headers :: rows, row.length = headers.length :=
    List.forall_mem_cons.2 ⟨rfl, hcells⟩
  have hfits : ∀ row ∈ headers :: rows, Fits (columnWidths headers rows) row :=
    fun row hrow => fits_columnWidths hrow (hlengths row hrow)
  rw [lines_table,
    List.flatMap_congr fun row hrow => lines_rowText (hfits row hrow) (hbreaks row hrow),
    ← List.map_eq_flatMap, List.forall₂_map_right_iff, List.forall₂_same]
  exact fun row hrow => lineOf_rowText (hfits row hrow)

/-- A table whose rows have as many cells as there are headers is one line for each row under the
line of the headers, and all of them show their cells in columns as wide as their widest cell. -/
theorem columns_align {headers : List String} {rows : List (List String)}
    (hcells : ∀ row ∈ rows, row.length = headers.length)
    (htexts : ∀ row ∈ headers :: rows, ∀ cell ∈ row,
      '\n' ∉ cell.toList ∧ cell.length ≤ maxWidth) :
    ∃ widths : List Nat, widths.length = headers.length ∧
      (∀ i width, widths[i]? = some width → Widest (headers :: rows) i width ∧ width ≤ maxWidth) ∧
      List.Forall₂ (LineOf widths) (headers :: rows) (lines (table headers rows)) := by
  refine ⟨columnWidths headers rows, length_columnWidths headers rows, fun i width hwidth => ?_,
    lineOf_table hcells fun row hrow cell hcell => (htexts row hrow cell hcell).1⟩
  have hwidest := widest_columnWidths headers rows hwidth
  obtain ⟨row, hrow, cell, hcell, rfl⟩ := hwidest.1
  exact ⟨hwidest, (htexts row hrow cell (List.mem_of_getElem? hcell)).2⟩

/-- Rows with letters beyond ASCII, an empty cell and a cell that ends in a blank. -/
def mixedRows : List (List String) := [["é", ""], ["日本", "b "]]

theorem mixed_columns_align : (∀ row ∈ mixedRows, row.length = ["id", "名"].length) ∧
    (∀ row ∈ ["id", "名"] :: mixedRows, ∀ cell ∈ row,
      '\n' ∉ cell.toList ∧ cell.length ≤ maxWidth) ∧
    ∃ widths : List Nat, widths.length = 2 ∧
      List.Forall₂ (LineOf widths) (["id", "名"] :: mixedRows)
        (lines (table ["id", "名"] mixedRows)) := by
  have hcells : ∀ row ∈ mixedRows, row.length = ["id", "名"].length := by decide
  have htexts : ∀ row ∈ ["id", "名"] :: mixedRows, ∀ cell ∈ row,
      '\n' ∉ cell.toList ∧ cell.length ≤ maxWidth := by decide
  obtain ⟨widths, hlength, -, hlines⟩ := columns_align hcells htexts
  exact ⟨hcells, htexts, widths, hlength, hlines⟩

example : table ["id", "名"] mixedRows = "id  名\né   \n日本  b " := by decide +kernel

end FleetConsole.Display
