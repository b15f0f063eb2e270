import ExemptZones.Text.Quoted
import ExemptZones.Decimal.Shortest
import ExemptZones.Value.Basic

/-
Writing JSON. A `Layout` says whether characters outside ASCII stand for themselves, and whether
each item has a line of its own.
-/

namespace ExemptZones.Json

open Text (hexDigits)

structure Layout where
  /-- Every character that is not printable ASCII is written by its code. -/
  ascii : Bool
  /-- Each item stands on its own line, two blanks further in than what holds it. -/
  spread : Bool
  deriving DecidableEq

namespace Layout

/-- On one line without blanks. -/
def compact : Layout := ⟨false, false⟩

/-- A document to be read. -/
def pretty : Layout := ⟨false, true⟩

/-- A document to be read, in ASCII. -/
def prettyAscii : Layout := ⟨true, true⟩

end Layout

def unit (n : Nat) : List Char :=
  '\\' :: 'u' :: hexDigits 4 n

/-- A character by its code, in two halves where one does not reach. -/
def code (c : Char) : List Char :=
  let n := c.toNat
  if n < 0x10000 then unit n
  else unit (0xd800 + (n - 0x10000) / 1024) ++ unit (0xdc00 + (n - 0x10000) % 1024)

def escape (ascii : Bool) (c : Char) : List Char :=
  if c = '"' then ['\\', '"']
  else if c = '\\' then ['\\', '\\']
  else if c = '\n' then ['\\', 'n']
  else if c = '\r' then ['\\', 'r']
  else if c = '\t' then ['\\', 't']
  else if c = '\x08' then ['\\', 'b']
  else if c = '\x0c' then ['\\', 'f']
  else if c.toNat < 0x20 || (ascii && 0x7f ≤ c.toNat) then code c
  else [c]

def text (ascii : Bool) (s : String) : List Char :=
  '"' :: s.toList.flatMap (escape ascii) ++ ['"']

/-- A half by its code. -/
def escapePiece (ascii : Bool) : Text.Piece → List Char
  | .char c => escape ascii c
  | .half n => unit n

def brokenText (ascii : Bool) (b : Broken) : List Char :=
  '"' :: b.pieces.flatMap (escapePiece ascii) ++ ['"']

/-- Numbers have at least two digits in an exponent, and a whole one keeps a zero after its point. -/
def numbers : Decimal.Style := ⟨-3, 16, 2, "Infinity", "NaN"⟩

/-- What stands between the items of a list, and before the first and after the last. -/
def newline (l : Layout) (depth : Nat) : List Char :=
  if l.spread then '\n' :: List.replicate (2 * depth) ' ' else []

mutual

def chars (l : Layout) (depth : Nat) : Value → List Char
  | .null => "null".toList
  | .bool true => "true".toList
  | .bool false => "false".toList
  | .int i => (toString i).toList
  | .float x => (numbers.write x.toBits).toList
  | .text s => text l.ascii s
  | .broken b => brokenText l.ascii b
  | .bytes b => text l.ascii ((Utf8.decode? b).getD "")
  | .other plain _ => text l.ascii plain
  | .list [] => ['[', ']']
  | .list (v :: vs) =>
    '[' :: newline l (depth + 1) ++ chars l (depth + 1) v ++ itemChars l (depth + 1) vs ++ newline l depth ++ [']']
  | .map [] => ['\x7b', '\x7d']
  | .map ((k, v) :: es) =>
    '\x7b' :: newline l (depth + 1) ++ keyChars l k ++ chars l (depth + 1) v ++ entryChars l (depth + 1) es ++
      newline l depth ++ ['\x7d']

/-- The items after the first. -/
def itemChars (l : Layout) (depth : Nat) : List Value → List Char
  | [] => []
  | v :: vs => ',' :: newline l depth ++ chars l depth v ++ itemChars l depth vs

/-- The members after the first. -/
def entryChars (l : Layout) (depth : Nat) : List (Value × Value) → List Char
  | [] => []
  | (k, v) :: es => ',' :: newline l depth ++ keyChars l k ++ chars l depth v ++ entryChars l depth es

/-- The name of a member and what parts it from the value. -/
def keyChars (l : Layout) : Value → List Char
  | .text s => text l.ascii s ++ (if l.spread then [':', ' '] else [':'])
  | .broken b => brokenText l.ascii b ++ (if l.spread then [':', ' '] else [':'])
  | _ => ['"', '"', ':']

end

@[simp] theorem chars_nil (l : Layout) (depth : Nat) : chars l depth (.list []) = ['[', ']'] := by
  rw [chars]

def write (l : Layout) (v : Value) : String :=
  String.ofList (chars l 0 v)

end ExemptZones.Json
