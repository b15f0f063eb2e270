import ExemptZones.Shape.Scalar

/-
A party: one side of a transfer. It may be left open, and what names it need not be a text that can be
stored.
-/

namespace ExemptZones

inductive Party where
  | unspecified
  | named (address : String)
  | unencodable (b : Broken)
  deriving DecidableEq, Repr

namespace Party

def ofText : Text → Party
  | .plain s => .named s
  | .broken b => .unencodable b

def ofValue : Shape.Reader Party
  | .null => .ok .unspecified
  | v => (Shape.text v).map ofText

def toValue : Party → Value
  | .unspecified => .null
  | .named s => .text s
  | .unencodable b => .broken b

end Party

end ExemptZones
