import ExemptZones.Text.Basic
import ExemptZones.Text.Utf8

/-
The values that a document can hold. A map keeps its entries in the order of their first
appearance; its keys need not be texts. Of a value of another kind, such as a date, only its two
texts matter: the plain one and the one it has inside a list.
-/

namespace ExemptZones

inductive Value where
  | null
  | bool (b : Bool)
  | int (i : Int)
  | float (x : Float)
  | text (s : String)
  /-- A text that has no encoded form. -/
  | broken (b : Broken)
  | bytes (b : Bytes)
  | list (items : List Value)
  | map (entries : List (Value × Value))
  | other (plain inside : String)

namespace Value

instance : Inhabited Value := ⟨.null⟩

/-- A map whose keys are texts. -/
def object (fields : List (String × Value)) : Value :=
  .map (fields.map fun (k, v) => (.text k, v))

def texts (xs : List String) : Value :=
  .list (xs.map .text)

def ofText : Text → Value
  | .plain s => .text s
  | .broken b => .broken b

def ofTexts (xs : List Text) : Value :=
  .list (xs.map ofText)

/-- A text, or null for none. -/
def ofText? : Option Text → Value
  | some t => ofText t
  | none => .null

/-- What counts as no document at all: an empty value of any kind. -/
def isEmpty : Value → Bool
  | .null => true
  | .bool b => !b
  | .int i => i = 0
  | .float x => x == 0.0
  | .text s => s.isEmpty
  | .bytes b => b.isEmpty
  | .list xs => xs.isEmpty
  | .map es => es.isEmpty
  | .broken _ | .other _ _ => false

end Value

end ExemptZones
