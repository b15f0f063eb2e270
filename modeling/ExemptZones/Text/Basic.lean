/-
Texts. Beside characters a text may hold halves of surrogate pairs, for what comes from outside can name a half by
its code. Such a text is broken: it is compared and shown like any other, but it has no encoded form, so it can be
neither stored nor printed.

`pieces_ofPieces`, `ofPieces_pieces`: a text is what it is made of.
-/

namespace ExemptZones

/-- A piece of a text: a character, or half of a surrogate pair. -/
inductive Text.Piece where
  | char (c : Char)
  | half (n : Nat)
  deriving DecidableEq, Repr

namespace Text.Piece

def isHalf : Piece → Bool
  | .char _ => false
  | .half _ => true

def char? : Piece → Option Char
  | .char c => some c
  | .half _ => none

end Text.Piece

/-- A text with a half in it. -/
structure Broken where
  pieces : List Text.Piece
  broken : pieces.any Text.Piece.isHalf = true
  deriving DecidableEq, Repr

inductive Text where
  | plain (s : String)
  | broken (b : Broken)
  deriving DecidableEq, Repr

instance : Coe String Text := ⟨.plain⟩

namespace Text

instance : Inhabited Text := ⟨""⟩

/-- The text without halves that a text is, if it is one. -/
def plain? : Text → Option String
  | .plain s => some s
  | .broken _ => none

theorem plain?_eq_some_iff {t : Text} {s : String} : t.plain? = some s ↔ t = s := by
  cases t <;> simp [plain?]

def isEmpty : Text → Bool
  | .plain s => s.isEmpty
  | .broken _ => false

@[simp] theorem isEmpty_plain (s : String) : (plain s).isEmpty = s.isEmpty := rfl

/-! ## Pieces -/

def pieces : Text → List Piece
  | .plain s => s.toList.map .char
  | .broken b => b.pieces

def ofPieces (ps : List Piece) : Text :=
  if h : ps.any Piece.isHalf = true then .broken ⟨ps, h⟩
  else .plain (String.ofList (ps.filterMap Piece.char?))

@[simp] theorem ofPieces_map_char (cs : List Char) : ofPieces (cs.map .char) = .plain (String.ofList cs) := by
  have hany : (cs.map Piece.char).any Piece.isHalf = false := by simp [Piece.isHalf]
  have hcs : (cs.map Piece.char).filterMap Piece.char? = cs := by
    rw [List.filterMap_map]
    exact List.filterMap_some
  rw [ofPieces, dif_neg (by simp [hany]), hcs]

theorem ofPieces_pieces (t : Text) : ofPieces t.pieces = t := by
  cases t with
  | plain s => rw [pieces, ofPieces_map_char, String.ofList_toList]
  | broken b => rw [pieces, ofPieces, dif_pos b.broken]

theorem map_char_of_not_any {ps : List Piece} (h : ps.any Piece.isHalf = false) :
    (ps.filterMap Piece.char?).map .char = ps := by
  induction ps with
  | nil => rfl
  | cons p ps ih =>
    cases p with
    | char c => exact congrArg (Piece.char c :: ·) (ih h)
    | half n => cases h

theorem pieces_ofPieces (ps : List Piece) : (ofPieces ps).pieces = ps := by
  unfold ofPieces
  split
  · rfl
  · rename_i h
    rw [pieces, String.toList_ofList, map_char_of_not_any (by simpa using h)]

/-! ## Putting texts together -/

def append : Text → Text → Text
  | .plain s, .plain t => .plain (s ++ t)
  | s, t => ofPieces (s.pieces ++ t.pieces)

instance : Append Text := ⟨append⟩

theorem plain_append (s t : String) : (s : Text) ++ (t : Text) = (s ++ t : String) := rfl

end Text

end ExemptZones
