import ExemptZones.Text.Basic

/-
Blank characters and the trimming of text. Two rules differ by four characters: a text field is
trimmed of white space as Unicode defines it and of the separators U+001C to U+001F, the text of a
number of white space alone.
-/

namespace ExemptZones.Text

/-- The white space of Unicode. -/
def isWhite (c : Char) : Bool :=
  let n := c.toNat
  (0x09 ≤ n && n ≤ 0x0d) || n == 0x20 || n == 0x85 || n == 0xa0 || n == 0x1680 ||
    (0x2000 ≤ n && n ≤ 0x200a) || n == 0x2028 || n == 0x2029 || n == 0x202f || n == 0x205f || n == 0x3000

/-- White space and the four information separators. -/
def isBlank (c : Char) : Bool :=
  isWhite c || (0x1c ≤ c.toNat && c.toNat ≤ 0x1f)

def Piece.isBlank : Piece → Bool
  | .char c => Text.isBlank c
  | .half _ => false

/-- Drops what satisfies `p` from both ends. -/
def trimBy {α : Type} (p : α → Bool) (xs : List α) : List α :=
  ((xs.dropWhile p).reverse.dropWhile p).reverse

def strip : Text → Text
  | .plain s => String.ofList (trimBy isBlank s.toList)
  | .broken b => ofPieces (trimBy Piece.isBlank b.pieces)

/-- Drops blanks from the right end only. -/
def stripRight (s : String) : String :=
  String.ofList (s.toList.reverse.dropWhile isBlank).reverse

end ExemptZones.Text
