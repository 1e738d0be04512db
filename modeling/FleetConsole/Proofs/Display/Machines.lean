import FleetConsole.Display.Listing
import FleetConsole.Proofs.Display.Table
import FleetConsole.Proofs.Text.Digits
import Mathlib.Algebra.BigOperators.Group.List.Basic
import Mathlib.Algebra.Group.Action.Defs

/-!
# The lines of the table of machines

The texts that the server sends are shown as they are, but for those that are blank. A line break in
one of them breaks the row of its machine, and what follows the break stands where a row of its own
would. Numbers, points in time and truth values have no line breaks, so a machine takes one more
line for each line break in its texts, and one line if there is none (`one_line_per_machine_iff`).
-/

namespace FleetConsole.Display

open Text

/-! ### Line breaks in cells -/

/-- How often a text breaks the line. -/
def breaks (s : String) : Nat := s.toList.count '\n'

theorem breaks_append (s t : String) : breaks (s ++ t) = breaks s + breaks t := by
  rw [breaks, String.toList_append, List.count_append]
  rfl

theorem breaks_eq_zero {s : String} : breaks s = 0 ↔ '\n' ∉ s.toList := List.count_eq_zero

theorem breaks_natText (n : Nat) : breaks (natText n) = 0 := by
  rw [breaks_eq_zero, natText, String.toList_ofList]
  exact fun hbreak => absurd (isDigit_of_mem_digits hbreak) (by decide)

theorem breaks_intText (n : Int) : breaks (intText n) = 0 := by
  rw [breaks_eq_zero]
  intro hbreak
  rcases mem_intText hbreak with hsign | hdigit
  · exact absurd hsign (by decide)
  · exact absurd hdigit (by decide)

theorem breaks_truth (b : Bool) : breaks (truth b) = 0 := by
  cases b <;> decide

theorem breaks_timestamp (t : Option Instant) : breaks (timestamp t) = 0 := by
  cases t with
  | none => decide
  | some t =>
    have hdigits : ∀ width n, '\n' ∉ padZeros width n := fun width n hbreak =>
      absurd (isDigit_of_mem_padZeros hbreak) (by decide)
    have hyear : ∀ year, '\n' ∉ Instant.yearText year := by
      intro year
      rw [Instant.yearText]
      split_ifs <;> simp [hdigits]
    rw [breaks_eq_zero, timestamp, Instant.text, String.toList_ofList]
    simp [Instant.chars, hdigits, hyear]

/-- How often a text breaks the line when it is shown: a blank one is not. -/
def shownBreaks (s : String) : Nat := if isBlankText s then 0 else breaks s

theorem breaks_optional (s : String) : breaks (optional (some s)) = shownBreaks s := by
  rw [optional, shownBreaks]
  split_ifs
  · decide
  · rfl

theorem breaks_address (s : String) (port : Nat) : breaks (address s port) = shownBreaks s := by
  rw [address, shownBreaks]
  split_ifs with hblank
  · decide
  · rw [breaks_append, breaks_append, breaks_natText]
    split_ifs
    · rw [breaks_append, breaks_append]
      simp [breaks]
    · simp [breaks]

/-! ### Machines -/

/-- The texts of a machine that its row shows unless they are blank. -/
def sentTexts (wide : Bool) (m : Machine) : List String :=
  m.hostname :: m.address :: m.agentVersion.toList ++ if wide then m.error.toList else []

/-- How many line breaks the row of a machine has. -/
def lineBreaks (wide : Bool) (m : Machine) : Nat := ((sentTexts wide m).map shownBreaks).sum

/-- A machine shows no line break. -/
def Unbroken (wide : Bool) (m : Machine) : Prop :=
  ∀ s ∈ sentTexts wide m, '\n' ∈ s.toList → isBlankText s = true

instance (wide : Bool) (m : Machine) : Decidable (Unbroken wide m) :=
  inferInstanceAs (Decidable (∀ s ∈ sentTexts wide m, '\n' ∈ s.toList → isBlankText s = true))

theorem lineBreaks_eq_zero {wide : Bool} {m : Machine} :
    lineBreaks wide m = 0 ↔ Unbroken wide m := by
  rw [lineBreaks, List.sum_eq_zero_iff_forall_eq_nat, List.forall_mem_map]
  refine forall₂_congr fun s _ => ?_
  rw [shownBreaks]
  split_ifs with hblank
  · simp [hblank]
  · simp [hblank, breaks_eq_zero]

theorem sum_breaks_cells (wide : Bool) (m : Machine) :
    ((machineCells wide m).map breaks).sum = lineBreaks wide m := by
  have hoptional : ∀ s, breaks (optional s) = (s.toList.map shownBreaks).sum := by
    intro s
    cases s with
    | none => decide
    | some s => simp [breaks_optional]
  cases wide <;>
    simp [machineCells, lineBreaks, sentTexts, breaks_intText, breaks_address, breaks_timestamp,
      breaks_truth, hoptional]

theorem length_machineCells (wide : Bool) (m : Machine) :
    (machineCells wide m).length = (machineHeaders wide).length := by
  cases wide <;> rfl

/-- Machines can be written as a table exactly if every cell that is padded can be. -/
theorem canList_iff (machines : List Machine) (wide : Bool) : canList machines wide = true ↔
    ∀ m ∈ machines, ∀ cell ∈ (machineCells wide m).dropLast, cell.length ≤ maxWidth := by
  have hheaders : ∀ header ∈ (machineHeaders wide).dropLast, header.length ≤ maxWidth := by
    cases wide <;> decide
  have hlengths : ∀ row ∈ machines.map (machineCells wide),
      row.length = (machineHeaders wide).length :=
    List.forall_mem_map.2 fun m _ => length_machineCells wide m
  rw [canList, Bool.or_eq_true, canTabulate_iff hlengths, List.forall_mem_cons,
    List.forall_mem_map, and_iff_right hheaders, or_iff_right_of_imp]
  intro hnone m hm
  rw [List.isEmpty_iff.1 hnone] at hm
  cases hm

theorem breaks_machineHeaders (wide : Bool) :
    ∀ header ∈ machineHeaders wide, breaks header = 0 := by
  cases wide <;> decide

theorem length_flatMap_succ {α β : Type} {xs : List α} {f : α → List β} {g : α → Nat}
    (hlength : ∀ x ∈ xs, (f x).length = g x + 1) :
    (xs.flatMap f).length = (xs.map g).sum + xs.length := by
  rw [List.length_flatMap, List.map_congr_left hlength, List.sum_map_add, List.map_const',
    List.sum_replicate, smul_eq_mul, Nat.mul_one]

/-- The lines that a machine takes in a table. -/
structure RowOf (widths : List Nat) (wide : Bool) (m : Machine) (rows : List (List Char)) :
    Prop where
  /-- There is one more for each line break that the machine shows. -/
  length : rows.length = lineBreaks wide m + 1
  /-- A machine that shows no line break has its cells on one line, in their columns. -/
  unbroken : Unbroken wide m → ∃ line, rows = [line] ∧ LineOf widths (machineCells wide m) line

theorem rowOf_rowText {widths : List Nat} {wide : Bool} {m : Machine}
    (hfits : Fits widths (machineCells wide m)) :
    RowOf widths wide m (lines (rowText widths (machineCells wide m))) where
  length := by
    rw [length_lines, count_rowText hfits (by decide)]
    exact congrArg (· + 1) (sum_breaks_cells wide m)
  unbroken hunbroken := by
    refine ⟨_, lines_rowText hfits fun cell hcell => ?_, lineOf_rowText hfits⟩
    have hsum := (sum_breaks_cells wide m).trans (lineBreaks_eq_zero.2 hunbroken)
    rw [List.sum_eq_zero_iff_forall_eq_nat, List.forall_mem_map] at hsum
    exact breaks_eq_zero.1 (hsum cell hcell)

/-- Machines have a table exactly if every cell that is padded can be. It has the line of the
headers, and below it the lines of each machine in order. So it has one line for each machine
exactly if no machine shows a line break. -/
theorem one_line_per_machine_iff (machines : List Machine) (wide : Bool) :
    (canList machines wide = true ↔
      ∀ m ∈ machines, ∀ cell ∈ (machineCells wide m).dropLast, cell.length ≤ maxWidth) ∧
    ∃ widths : List Nat,
      LineOf widths (machineHeaders wide) (rowText widths (machineHeaders wide)).toList ∧
      lines (machineTable machines wide) =
        (rowText widths (machineHeaders wide)).toList ::
          machines.flatMap (fun m => lines (rowText widths (machineCells wide m))) ∧
      (∀ m ∈ machines, RowOf widths wide m (lines (rowText widths (machineCells wide m)))) ∧
      ((lines (machineTable machines wide)).length = machines.length + 1 ↔
        ∀ m ∈ machines, Unbroken wide m) := by
  let widths := columnWidths (machineHeaders wide) (machines.map (machineCells wide))
  have hheaders : Fits widths (machineHeaders wide) := fits_columnWidths List.mem_cons_self rfl
  have hrows : ∀ m ∈ machines,
      RowOf widths wide m (lines (rowText widths (machineCells wide m))) := fun m hm =>
    rowOf_rowText (fits_columnWidths (List.mem_cons_of_mem _ (List.mem_map_of_mem hm))
      (length_machineCells wide m))
  have hlines : lines (machineTable machines wide) =
      (rowText widths (machineHeaders wide)).toList ::
        machines.flatMap (fun m => lines (rowText widths (machineCells wide m))) := by
    rw [machineTable, lines_table, List.flatMap_cons, lines_rowText hheaders fun header hheader =>
      breaks_eq_zero.1 (breaks_machineHeaders wide header hheader), List.flatMap_map]
    rfl
  refine ⟨canList_iff machines wide, widths, lineOf_rowText hheaders, hlines, hrows, ?_⟩
  have hcount : (lines (machineTable machines wide)).length =
      (machines.map (lineBreaks wide)).sum + machines.length + 1 := by
    rw [hlines, List.length_cons, length_flatMap_succ fun m hm => (hrows m hm).length]
  simp only [← lineBreaks_eq_zero]
  rw [hcount, ← List.forall_mem_map (P := fun n => n = 0), ← List.sum_eq_zero_iff_forall_eq_nat]
  omega

/-- A machine with line breaks in texts that are blank, and another control in its error. -/
def restlessMachine : Machine :=
  { id := -1, hostname := "\n\n", address := "fe80::1", agentPort := 8080,
    agentVersion := some " \n", error := some "refused\tby peer" }

theorem restless_machine_on_one_line : Unbroken true restlessMachine ∧
    canList [restlessMachine] true = true ∧
    (lines (machineTable [restlessMachine] true)).length = 2 := by
  have hunbroken : Unbroken true restlessMachine := by decide
  obtain ⟨hprintable, widths, -, -, -, hcount⟩ := one_line_per_machine_iff [restlessMachine] true
  exact ⟨hunbroken, hprintable.2 (by decide +kernel), hcount.2 (by simpa using hunbroken)⟩

/-- A machine whose error goes on as the row of another one. -/
def forgingMachine : Machine :=
  { id := 1, hostname := "kea-1",
    error := some
      "down\n2   kea-2     -        -              -             yes         -" }

theorem row_forged : machineTable [forgingMachine] true =
      machineTable [{ forgingMachine with error := some "down" },
        { id := 2, hostname := "kea-2", authorized := true }] true ∧
    (lines (machineTable [forgingMachine] true)).length ≠ [forgingMachine].length + 1 := by
  decide +kernel

end FleetConsole.Display
