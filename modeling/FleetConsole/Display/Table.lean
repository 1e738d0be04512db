import FleetConsole.Text.Blank

/-!
# Tables

Rows under headers in aligned columns. A column is as wide as its longest header or cell, and two
blanks stand between columns. The last cell of a row is not padded, so that lines do not end in
blanks. Cells beyond the headers are not shown. There is no table if a cell would have to be padded
to more than `maxWidth` characters.
-/

namespace FleetConsole.Display

open Text

/-- A text with blanks behind it up to a width in characters. -/
def padRight (width : Nat) (s : String) : String :=
  s ++ String.ofList (List.replicate (width - s.length) ' ')

/-- The greatest width to which a text can be padded. -/
def maxWidth : Nat := 65535

/-- Widths that also hold the cells of a row. A row may have fewer or more cells than there are
widths. -/
def widen : List Nat → List String → List Nat
  | width :: widths, cell :: cells => max width cell.length :: widen widths cells
  | widths, _ => widths

def columnWidths (headers : List String) (rows : List (List String)) : List Nat :=
  rows.foldl widen (headers.map String.length)

/-- The cells of a row, each as wide as its column but for the last one of the row. -/
def padCells : List Nat → List String → List String
  | _ :: _, [cell] => [cell]
  | width :: widths, cell :: cells => padRight width cell :: padCells widths cells
  | _, _ => []

def canPad : List Nat → List String → Bool
  | _ :: _, [_] => true
  | width :: widths, _ :: cells => width ≤ maxWidth && canPad widths cells
  | _, _ => true

def rowText (widths : List Nat) (cells : List String) : String :=
  joinWith "  " (padCells widths cells)

def table (headers : List String) (rows : List (List String)) : String :=
  let widths := columnWidths headers rows
  joinWith "\n" ((headers :: rows).map (rowText widths))

def canTabulate (headers : List String) (rows : List (List String)) : Bool :=
  (headers :: rows).all (canPad (columnWidths headers rows))

end FleetConsole.Display
