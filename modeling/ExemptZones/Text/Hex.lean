import ExemptZones.Text.Utf8
import ExemptZones.Text.Quoted

/-
Bytes in hexadecimal. `encode` writes two lower-case digits a byte. `read` takes digits of either
case, allows blanks between the pairs, and otherwise names the position where a digit was expected.

`read_encode`: what was encoded reads back.
-/

namespace ExemptZones.Hex

open Text (hexDigit)

def encodeChars : Bytes → List Char
  | [] => []
  | b :: bs => hexDigit (b.toNat / 16) :: hexDigit (b.toNat % 16) :: encodeChars bs

def encode (b : Bytes) : String :=
  String.ofList (encodeChars b)

def digitValue? (c : Char) : Option Nat :=
  if '0' ≤ c ∧ c ≤ '9' then some (c.toNat - '0'.toNat)
  else if 'a' ≤ c ∧ c ≤ 'f' then some (c.toNat - 'a'.toNat + 10)
  else if 'A' ≤ c ∧ c ≤ 'F' then some (c.toNat - 'A'.toNat + 10)
  else none

/-- The blanks of ASCII, which may stand between two pairs. -/
def isGap (c : Char) : Bool :=
  c = ' ' || (0x09 ≤ c.toNat && c.toNat ≤ 0x0d)

/-- Reads pairs of digits; `pos` is the position of the first character of the list. -/
def readChars (pos : Nat) : List Char → Except Nat Bytes
  | [] => .ok []
  | [c] => if isGap c then .ok [] else .error (if (digitValue? c).isSome then pos + 1 else pos)
  | c :: d :: cs =>
    match digitValue? c, digitValue? d with
    | some hi, some lo => (readChars (pos + 2) cs).map (UInt8.ofNat (hi * 16 + lo) :: ·)
    | some _, none => .error (pos + 1)
    | none, _ => if isGap c then readChars (pos + 1) (d :: cs) else .error pos

def isAscii : Text.Piece → Bool
  | .char c => c.toNat < 0x80
  | .half _ => false

/-- The bytes that a text stands for, or the position of its first fault. What is outside ASCII
is a fault before any other. -/
def read (t : Text) : Except Nat Bytes :=
  match t.pieces.findIdx? (fun p => !isAscii p) with
  | some i => .error i
  | none => readChars 0 (t.pieces.filterMap Text.Piece.char?)

private theorem digitValue?_hexDigit : ∀ n < 16, digitValue? (hexDigit n) = some n := by decide

private theorem hexDigit_ascii : ∀ n < 16, (hexDigit n).toNat < 0x80 := by decide

theorem readChars_encodeChars (b : Bytes) (pos : Nat) : readChars pos (encodeChars b) = .ok b := by
  induction b generalizing pos with
  | nil => rfl
  | cons b bs ih =>
    have hb : b.toNat < 256 := b.toNat_lt
    have h1 : b.toNat / 16 < 16 := by omega
    have h2 : b.toNat % 16 < 16 := by omega
    have h3 : b.toNat / 16 * 16 + b.toNat % 16 = b.toNat := by omega
    simp [encodeChars, readChars, digitValue?_hexDigit _ h1, digitValue?_hexDigit _ h2, ih, h3, Except.map]

theorem ascii_of_mem_encodeChars {b : Bytes} {c : Char} (h : c ∈ encodeChars b) : c.toNat < 0x80 := by
  induction b with
  | nil => simp [encodeChars] at h
  | cons b bs ih =>
    have hb : b.toNat < 256 := b.toNat_lt
    simp only [encodeChars, List.mem_cons] at h
    rcases h with rfl | rfl | h
    · exact hexDigit_ascii _ (by omega)
    · exact hexDigit_ascii _ (by omega)
    · exact ih h

theorem read_encode (b : Bytes) : read (encode b) = .ok b := by
  have hp : (encode b : Text).pieces = (encodeChars b).map .char := by simp [Text.pieces, encode]
  have hascii : ((encodeChars b).map Text.Piece.char).findIdx? (fun p => !isAscii p) = none := by
    simp only [List.findIdx?_eq_none_iff, List.mem_map, forall_exists_index, and_imp, forall_apply_eq_imp_iff₂]
    intro c hc
    simpa [isAscii] using ascii_of_mem_encodeChars hc
  have hchars : ((encodeChars b).map Text.Piece.char).filterMap Text.Piece.char? = encodeChars b := by
    rw [List.filterMap_map]
    exact List.filterMap_some
  simp only [read, hp, hascii, hchars]
  exact readChars_encodeChars b 0

end ExemptZones.Hex
