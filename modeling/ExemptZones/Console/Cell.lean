import ExemptZones.Text.Blank
import ExemptZones.Text.CellWidth

/-
Lines laid into a column. A line that is too wide is broken before a word; what is still too wide loses blanks
at its end, and then whatever does not fit for an ellipsis.
-/

namespace ExemptZones.Console

open Text (cells cellWidth isBlank)

def blanks (n : Nat) : List Char :=
  List.replicate n ' '

def dropBlankEnd (cs : List Char) : List Char :=
  (cs.reverse.dropWhile isBlank).reverse

/-! ## Words -/

/-- Cuts a line after each run of blanks. -/
def cut : List Char → List (List Char)
  | [] => []
  | c :: cs =>
    match cut cs with
    | [] => [[c]]
    | w :: ws =>
      if isBlank c && !(w.headD ' ' |> isBlank) then [c] :: w :: ws else (c :: w) :: ws

/-- The words of a line, each with the blanks after it, the first also with those before it. -/
def words (cs : List Char) : List (List Char) :=
  match cut cs with
  | w :: v :: ws => if w.all isBlank then (w ++ v) :: ws else w :: v :: ws
  | ws => ws

/-- Lays words into lines. `line` is the line so far, which fills `used` cells. -/
def lay (width used : Nat) (line : List Char) : List (List Char) → List (List Char)
  | [] => [line]
  | w :: ws =>
    if line.isEmpty || used + cells (dropBlankEnd w) ≤ width then lay width (used + cells w) (line ++ w) ws
    else line :: lay width (cells w) w ws

/-- Drops blanks at the end as long as there are more characters than cells. -/
def crop (width : Nat) (cs : List Char) : List Char :=
  let blank := cs.length - (dropBlankEnd cs).length
  cs.take (cs.length - min blank (cs.length - width))

/-- As much of a line as fits; half a wide character leaves a blank. -/
def fit : Nat → List Char → List Char
  | 0, _ => []
  | n + 1, [] => blanks (n + 1)
  | n + 1, c :: cs => if cellWidth c ≤ n + 1 then c :: fit (n + 1 - cellWidth c) cs else [' ']

def shorten (width : Nat) (cs : List Char) : List Char :=
  if cells cs ≤ width then cs else fit (width - 1) cs ++ ['…']

/-! ## Alignment -/

inductive Align where
  | left
  | centre
  deriving DecidableEq, Repr

def alignLeft (width : Nat) (cs : List Char) : List Char :=
  let cs := shorten width cs
  cs ++ blanks (width - cells cs)

/-- The spare cell is on the right. -/
def alignCentre (width : Nat) (cs : List Char) : List Char :=
  let cs := shorten width (dropBlankEnd cs)
  let left := (width - cells cs) / 2
  blanks left ++ cs ++ blanks (width - cells cs - left)

def align : Align → Nat → List Char → List Char
  | .left => alignLeft
  | .centre => alignCentre

/-- The lines of a column that one line takes. -/
def columnLines (a : Align) (width : Nat) (cs : List Char) : List (List Char) :=
  (lay width 0 [] (words cs)).map fun l => align a width (crop width l)

end ExemptZones.Console
