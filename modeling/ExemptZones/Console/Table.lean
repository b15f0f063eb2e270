import ExemptZones.Console.Cell
import ExemptZones.Console.Markup

/-
Tables with a heavy head and light rows. A column is as wide as its widest line; a blank stands on either side
of it.
-/

namespace ExemptZones.Console

open Text (cells)

structure Column where
  title : String
  align : Align
  deriving DecidableEq, Repr

/-- What is shown in a cell. -/
abbrev Cell := List Char

structure Table where
  columns : List Column
  rows : List (List Cell)

/-! ## Widths -/

def widest (ls : List (List Char)) : Nat :=
  (ls.map cells).foldl max 0

def cellWidthOf (c : Cell) : Nat :=
  widest (Text.splitLines c)

/-- The widths of some columns, given those of their cells in one row. -/
def widen : List Nat → List Cell → List Nat
  | w :: ws, c :: cs => max w (cellWidthOf c) :: widen ws cs
  | ws, _ => ws

namespace Table

def titles (t : Table) : List Cell :=
  t.columns.map fun c => c.title.toList

def widths (t : Table) : List Nat :=
  t.rows.foldl widen ((t.titles).map cellWidthOf)

/-! ## Lines -/

/-- A line across the table. -/
def rule (left fill cross right : Char) (widths : List Nat) : String :=
  let segments := widths.map fun w => String.ofList (List.replicate (w + 2) fill)
  left.toString ++ cross.toString.intercalate segments ++ right.toString

/-- The lines that a cell takes in a column. -/
def cellLines (a : Align) (width : Nat) (c : Cell) : List (List Char) :=
  (Text.splitAt '\n' c).flatMap fun l => columnLines a width (Markup.expandTabs 0 l)

/-- The `i`-th line of a cell, which is blank below its last one. -/
def cellLine (width : Nat) (lines : List (List Char)) (i : Nat) : String :=
  " " ++ String.ofList (lines.getD i (blanks width)) ++ " "

/-- A row, on as many lines as its tallest cell takes. -/
def rowLines (bar : Char) (columns : List Column) (widths : List Nat) (row : List Cell) : List String :=
  let laid := ((columns.zip widths).zip row).map fun ((k, w), c) => (w, cellLines k.align w c)
  let height := (laid.map fun (_, ls) => ls.length).foldl max 1
  (List.range height).map fun i =>
    bar.toString ++ bar.toString.intercalate (laid.map fun (w, ls) => cellLine w ls i) ++ bar.toString

def lines (t : Table) : List String :=
  let ws := t.widths
  [rule '┏' '━' '┳' '┓' ws] ++ rowLines '┃' t.columns ws t.titles ++ [rule '┡' '━' '╇' '┩' ws] ++
    t.rows.flatMap (rowLines '│' t.columns ws) ++ [rule '└' '─' '┴' '┘' ws]

end Table

end ExemptZones.Console
