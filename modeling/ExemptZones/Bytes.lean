/-
Byte strings and their order. The order compares byte by byte, and a string comes before what
extends it.
-/

namespace ExemptZones

/-- A byte string. Its order `<` is the lexicographic order of the bytes. -/
abbrev Bytes := List UInt8

namespace Bytes

theorem lt_irrefl (a : Bytes) : ¬ a < a :=
  List.lt_irrefl a

theorem lt_trans {a b c : Bytes} (h : a < b) (h' : b < c) : a < c :=
  List.lt_trans h h'

theorem lt_of_not_lt_of_ne {a b : Bytes} (h : ¬ a < b) (h' : a ≠ b) : b < a :=
  Std.lt_of_le_of_ne (List.not_lt.1 h) (Ne.symm h')

theorem ne_of_lt {a b : Bytes} (h : a < b) : a ≠ b := by
  rintro rfl; exact lt_irrefl a h

end Bytes

end ExemptZones
