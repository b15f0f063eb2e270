import ExemptZones.Value.Shown
import ExemptZones.Shape.Scalar

/-
Records: objects with fixed field names. Fields are read in the order of their declaration; what
else the object holds is a fault of its own, after theirs.
-/

namespace ExemptZones.Shape

/-- The step to an entry whose key is no text: an index if the key is an integer. -/
def stepOfKey : Value → Step
  | .text s => .field s
  | .int i => if inWord i then .item i else .field (toString i)
  | .bool b => .item (if b then 1 else 0)
  | v => .field v.inside

/-- The faults of the entries that are no field. -/
def strangers (names : List String) : Entries → List Fault
  | [] => []
  | (.text k, _) :: es =>
    if names.contains k then strangers names es
    else ⟨.unknownField, [.field k]⟩ :: strangers names es
  | (k, _) :: es => ⟨.keyNotText, [stepOfKey k]⟩ :: strangers names es

def record {α : Type} (names : List String) (body : Entries → Checked α) : Reader α
  | .map es =>
    match body es, strangers names es with
    | .ok a, [] => .ok a
    | .ok _, fs => .error fs
    | .error es, fs => .error (es ++ fs)
  | _ => refuse .notObject

end ExemptZones.Shape
