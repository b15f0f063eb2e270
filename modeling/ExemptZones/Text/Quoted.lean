import ExemptZones.Text.Basic
import ExemptZones.Text.Printable

/-
Text quoted for a reader of messages. The quote is the single one, unless the text holds a single
quote and no double one. The quote and the backslash are written after a backslash, and a character
that is not shown as itself by its code, as is half of a surrogate pair.
-/

namespace ExemptZones.Text

def hexDigit (n : Nat) : Char :=
  "0123456789abcdef".toList.getD n '0'

/-- The last `width` hexadecimal digits of `n`, lower case. -/
def hexDigits : Nat → Nat → List Char
  | 0, _ => []
  | width + 1, n => hexDigits width (n / 16) ++ [hexDigit (n % 16)]

/-- The quote that a text is written in. -/
def quoteFor (cs : List Char) : Char :=
  if cs.contains '\'' && !cs.contains '"' then '"' else '\''

/-- One character between quotes `q`. -/
def quotedChar (q c : Char) : List Char :=
  if c = q || c = '\\' then ['\\', c]
  else if c = '\n' then ['\\', 'n']
  else if c = '\r' then ['\\', 'r']
  else if c = '\t' then ['\\', 't']
  else if isPrintable c then [c]
  else if c.toNat ≤ 0xff then '\\' :: 'x' :: hexDigits 2 c.toNat
  else if c.toNat ≤ 0xffff then '\\' :: 'u' :: hexDigits 4 c.toNat
  else '\\' :: 'U' :: hexDigits 8 c.toNat

def quotedPiece (q : Char) : Piece → List Char
  | .char c => quotedChar q c
  | .half n => '\\' :: 'u' :: hexDigits 4 n

def quoted (t : Text) : String :=
  let q := quoteFor (t.pieces.filterMap Piece.char?)
  String.ofList (q :: t.pieces.flatMap (quotedPiece q) ++ [q])

/-- A text in which halves stand by their codes, for a reader that takes no other. -/
def legible : Text → String
  | .plain s => s
  | .broken b => String.ofList (b.pieces.flatMap fun p => match p with
    | .char c => [c]
    | .half n => '\\' :: 'u' :: hexDigits 4 n)

end ExemptZones.Text
