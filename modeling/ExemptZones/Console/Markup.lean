import ExemptZones.Text.Blank
import ExemptZones.Text.CellWidth
import ExemptZones.Text.Lines

/-
Marked-up text, as it is shown on a console without colours. A mark stands in square brackets and starts with
a small letter, `#`, `@` or `/`; the last of these closes the mark that it names, or the latest one if it names
none. Marks are not shown, but one that closes nothing is an error. Backslashes before a mark come in pairs,
each of which shows one, and a single one left over shows the mark as it stands. Marks are told by their names
alone: whether a name makes sense as a style or as a handler is not looked into.

`escape` writes a text such that its marks are shown.
-/

namespace ExemptZones.Markup

/-! ## Pieces -/

inductive Piece where
  | plain (cs : List Char)
  /-- A mark and the backslashes before it. -/
  | mark (slashes : Nat) (inside : List Char)
  deriving DecidableEq, Repr

def startsMark (c : Char) : Bool :=
  ('a' ≤ c && c ≤ 'z') || c = '#' || c = '/' || c = '@'

/-- The inside of a mark and what follows it. No other bracket opens in between. -/
def inside? : List Char → Option (List Char × List Char)
  | [] => none
  | ']' :: cs => some ([], cs)
  | '[' :: _ => none
  | c :: cs => (inside? cs).map fun (i, rest) => (c :: i, rest)

/-- The mark that a text begins with: the backslashes before it, its inside, and the rest of the text. -/
def mark? : List Char → Option (Nat × List Char × List Char)
  | '\\' :: cs => (mark? cs).map fun (n, i, rest) => (n + 1, i, rest)
  | '[' :: c :: cs => if startsMark c then (inside? cs).map fun (i, rest) => (0, c :: i, rest) else none
  | _ => none

theorem length_of_inside? {cs i rest : List Char} (h : inside? cs = some (i, rest)) : rest.length < cs.length := by
  fun_induction inside? cs generalizing i rest with
  | case1 => cases h
  | case2 cs => cases h; simp
  | case3 => cases h
  | case4 c cs _ _ ih =>
    obtain ⟨⟨j, r⟩, hj, he⟩ := Option.map_eq_some_iff.1 h
    cases he
    have := ih hj
    simp only [List.length_cons]; omega

theorem length_of_mark? {cs i rest : List Char} {n : Nat} (h : mark? cs = some (n, i, rest)) :
    rest.length < cs.length := by
  fun_induction mark? cs generalizing n i rest with
  | case1 cs ih =>
    obtain ⟨⟨m, j, r⟩, hj, he⟩ := Option.map_eq_some_iff.1 h
    cases he
    have := ih hj
    simp only [List.length_cons]; omega
  | case2 c cs _ =>
    obtain ⟨⟨j, r⟩, hj, he⟩ := Option.map_eq_some_iff.1 h
    cases he
    have := length_of_inside? hj
    simp only [List.length_cons]; omega
  | case3 => cases h
  | case4 => cases h

/-- Puts a character before what is plain. -/
def addPlain (c : Char) : List Piece → List Piece
  | .plain p :: ps => .plain (c :: p) :: ps
  | ps => .plain [c] :: ps

def pieces (cs : List Char) : List Piece :=
  match h : mark? cs with
  | some (n, i, rest) =>
    have := length_of_mark? h
    .mark n i :: pieces rest
  | none =>
    match cs with
    | [] => []
    | c :: cs => addPlain c (pieces cs)
termination_by cs.length

/-! ## Escaping -/

def bracketed (i : List Char) : List Char :=
  '[' :: i ++ [']']

def escapePiece : Piece → List Char
  | .plain cs => cs
  | .mark n i => List.replicate (2 * n + 1) '\\' ++ bracketed i

/-- A single backslash at the end is doubled, for a mark may follow. -/
def guardEnd (cs : List Char) : List Char :=
  match cs.reverse with
  | '\\' :: '\\' :: _ => cs
  | '\\' :: _ => cs ++ ['\\']
  | _ => cs

def escape (s : String) : String :=
  String.ofList (guardEnd ((pieces s.toList).flatMap escapePiece))

/-! ## Names of marks -/

/-- The full name of a style. -/
def fullWord : String → String
  | "b" => "bold"
  | "d" => "dim"
  | "i" => "italic"
  | "u" => "underline"
  | "uu" => "underline2"
  | "s" => "strike"
  | "r" => "reverse"
  | "c" => "conceal"
  | "o" => "overline"
  | w => w

/-- The name of a style in small letters and without abbreviations. -/
def styleName (cs : List Char) : String :=
  let words := (Text.splitAt ' ' (cs.map Char.toLower)).filter fun w => !w.isEmpty
  " ".intercalate (words.map fun w => fullWord (String.ofList w))

/-- A mark's name, without what it is set to. -/
def name (i : List Char) : List Char :=
  i.takeWhile (· ≠ '=')

/-! ## Showing -/

/-- Characters that move the cursor or ring the bell are not shown. -/
def isSilent (c : Char) : Bool :=
  let n := c.toNat
  n = 7 || n = 8 || n = 11 || n = 12 || n = 13

/-- In plain text a backslash before a bracket is not shown. -/
def showPlain : List Char → List Char
  | '\\' :: '[' :: cs => '[' :: showPlain cs
  | c :: cs => if isSilent c then showPlain cs else c :: showPlain cs
  | [] => []

/-- Takes the mark of a name, or the latest one for no name, off the open ones. -/
def close? (n : String) : List String → Option (List String)
  | [] => none
  | o :: os => if n.isEmpty || n = o then some os else (close? n os).map (o :: ·)

/-- The open marks after a mark; `none` if it closes nothing. -/
def step? (i : List Char) (opened : List String) : Option (List String) :=
  match name i with
  | '/' :: n => close? (styleName (Text.trimBy Text.isBlank n)) opened
  | n => some (styleName n :: opened)

/-- What is shown of the pieces while some marks are open. -/
def showPieces : List String → List Piece → Option (List Char)
  | _, [] => some []
  | opened, .plain cs :: ps => (showPieces opened ps).map (showPlain cs ++ ·)
  | opened, .mark n i :: ps => do
    let slashes := List.replicate (n / 2) '\\'
    if n % 2 = 1 then
      return slashes ++ showPlain (bracketed i) ++ (← showPieces opened ps)
    else
      return slashes ++ (← showPieces (← step? i opened) ps)

/-- What is shown of a marked-up text; `none` if a mark closes nothing. -/
def shown? (s : String) : Option (List Char) :=
  showPieces [] (pieces s.toList)

/-! ## Tabs -/

/-- Blanks up to the next multiple of eight cells in the place of each tab. -/
def expandTabs (column : Nat) : List Char → List Char
  | [] => []
  | '\t' :: cs =>
    let n := 8 - column % 8
    List.replicate n ' ' ++ expandTabs (column + n) cs
  | '\n' :: cs => '\n' :: expandTabs 0 cs
  | c :: cs => c :: expandTabs (column + Text.cellWidth c) cs

/-- A message as it is printed. -/
def render? (s : String) : Option String :=
  (shown? s).map fun cs => String.ofList (expandTabs 0 cs)

end ExemptZones.Markup
