import ExemptZones.Text.Blank
import ExemptZones.Decimal.Digits
import ExemptZones.Decimal.Whole
import ExemptZones.Shape.Basic

/-
Texts, flags and integers, and what else is taken for one. A flag may be given by a number or a
word, an integer by a whole number or its digits.
-/

namespace ExemptZones.Shape

def text : Reader Text
  | .text s => .ok s
  | .broken b => .ok (.broken b)
  | .bytes b => match Utf8.decode? b with
    | some s => .ok s
    | none => refuse .unencodableText
  | _ => refuse .notText

/-- A text that has an encoded form. -/
def plainText : Reader String := fun v =>
  match text v with
  | .ok (.plain s) => .ok s
  | .ok (.broken _) => refuse .unencodableText
  | .error es => .error es

def nonEmptyText : Reader String := fun v =>
  match plainText v with
  | .ok s => if s.isEmpty then refuse .emptyText else .ok s
  | .error es => .error es

def bytes : Reader Bytes
  | .text s => .ok (Utf8.encode s)
  | .bytes b => .ok b
  | _ => refuse .notBytes

/-! ## Flags -/

def falseWords : List String := ["0", "off", "f", "false", "n", "no"]

def trueWords : List String := ["1", "on", "t", "true", "y", "yes"]

def flagWord (s : String) : Checked Bool :=
  let w := s.toLower
  if falseWords.contains w then .ok false
  else if trueWords.contains w then .ok true
  else refuse .notFlagWord

/-- The least integer that a machine word holds. -/
def leastWord : Int := -0x8000000000000000

/-- The integers that a machine word holds; a flag is not looked for beyond them. -/
def inWord (i : Int) : Bool :=
  leastWord ≤ i && i < -leastWord

def flagNumber (i : Int) : Checked Bool :=
  if i = 0 then .ok false
  else if i = 1 then .ok true
  else if inWord i then refuse .notFlagWord
  else refuse .notFlag

def flag : Reader Bool
  | .bool b => .ok b
  | .int i => flagNumber i
  | .float x => match Decimal.wholeness x with
    | .whole i => if i = leastWord then refuse .notFlag else flagNumber i
    | _ => refuse .notFlag
  | .text s => flagWord s
  | .bytes b => match Utf8.decode? b with
    | some s => flagWord s
    | none => refuse .notFlagWord
  | .broken _ => refuse .notFlagWord
  | _ => refuse .notFlag

/-! ## Integers -/

/-- Drops a point and zeros after it at the end. -/
def dropPoint (cs : List Char) : List Char :=
  match cs.reverse.dropWhile (· = '0') with
  | '.' :: r => r.reverse
  | _ => cs

/-- Digits with a single `_` allowed between two of them. -/
def digitsOnly? : List Char → Option (List Char)
  | [] => none
  | [c] => if c.isDigit then some [c] else none
  | c :: '_' :: r => if c.isDigit then (digitsOnly? r).map (c :: ·) else none
  | c :: r => if c.isDigit then (digitsOnly? r).map (c :: ·) else none

def natural? (cs : List Char) : Option Nat :=
  (digitsOnly? cs).map (·.foldl (fun n c => 10 * n + (c.toNat - 48)) 0)

/-- The integer that a text spells: blanks around it, one sign, and `.0` at the end do not matter,
nor do zeros in front when no minus sign stands before them. -/
def integerText? (s : String) : Option Int :=
  match dropPoint (Text.trimBy Text.isWhite s.toList) with
  | '-' :: '0' :: _ :: _ => none
  | '-' :: ds => (natural? ds).map fun n => -Int.ofNat n
  | '+' :: ds => (natural? ds).map Int.ofNat
  | ds => (natural? ds).map Int.ofNat

/-- The integer that a text stands for. A number of more digits than are read anywhere is too large. -/
def integerOfText (s : String) : Checked Int :=
  match integerText? s with
  | some i => if s.toList.countP Char.isDigit ≤ Decimal.mostDigits then .ok i else refuse .integerTooLarge
  | none => refuse .notIntegerText

def integer : Reader Int
  | .int i => .ok i
  | .bool b => .ok (if b then 1 else 0)
  | .float x => match Decimal.wholeness x with
    | .notFinite => refuse .notFinite
    | .fraction => refuse .fraction
    | .whole i => if inWord i && i ≠ leastWord then .ok i else refuse .integerTooLarge
  | .text s => integerOfText s
  | .bytes b => match Utf8.decode? b with
    | some s => integerOfText s
    | none => refuse .notIntegerText
  | .broken _ => refuse .notIntegerText
  | _ => refuse .notInteger

def natural : Reader Nat := fun v =>
  match integer v with
  | .ok i => if i < 0 then refuse .negative else .ok i.toNat
  | .error es => .error es

end ExemptZones.Shape
