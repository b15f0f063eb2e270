import ExemptZones.Text.Quoted
import ExemptZones.Text.Hex
import ExemptZones.Decimal.Shortest
import ExemptZones.Value.Basic

/-
Values shown in messages and in plain lists. A text is shown as it is on its own, and quoted inside
a list or a map.
-/

namespace ExemptZones.Value

/-- Numbers shown in messages. -/
def numbers : Decimal.Style := ⟨-3, 16, 2, "inf", "nan"⟩

/-- One byte between quotes `q`. -/
def quotedByte (q : Char) (b : UInt8) : List Char :=
  let c := Char.ofNat b.toNat
  if b < 0x80 then Text.quotedChar q c else '\\' :: 'x' :: Text.hexDigits 2 b.toNat

def quotedBytes (b : Bytes) : String :=
  let q := Text.quoteFor (b.map fun x => Char.ofNat x.toNat)
  String.ofList ('b' :: q :: b.flatMap (quotedByte q) ++ [q])

mutual

/-- A value as it stands inside a list. -/
def inside : Value → String
  | .null => "None"
  | .bool true => "True"
  | .bool false => "False"
  | .int i => toString i
  | .float x => numbers.write x.toBits
  | .text s => Text.quoted s
  | .broken b => Text.quoted (.broken b)
  | .bytes b => quotedBytes b
  | .other _ s => s
  | .list xs => "[" ++ ", ".intercalate (insideAll xs) ++ "]"
  | .map es => "\x7b" ++ ", ".intercalate (insideEntries es) ++ "\x7d"

def insideAll : List Value → List String
  | [] => []
  | v :: vs => inside v :: insideAll vs

def insideEntries : List (Value × Value) → List String
  | [] => []
  | (k, v) :: es => (inside k ++ ": " ++ inside v) :: insideEntries es

end

/-- A value on its own. -/
def alone : Value → Text
  | .text s => s
  | .broken b => .broken b
  | .other s _ => s
  | v => inside v

/-- A value on its own, with no half in it. -/
def plain (v : Value) : String :=
  v.alone.legible

@[simp] theorem plain_text (s : String) : (text s).plain = s := rfl

end ExemptZones.Value
