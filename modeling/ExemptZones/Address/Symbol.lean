/-
The 32 symbols of the data part of an address, and the characters they are written with.

`symbol?_toChar`: a symbol reads back from its character.
`toChar_of_symbol?`: and a character stands for no other symbol.
-/

namespace ExemptZones.Address

/-- Five bits of the data part. -/
abbrev Symbol := Fin 32

namespace Symbol

def alphabet : List Char :=
  "qpzry9x8gf2tvdw0s3jn54khce6mua7l".toList

def toChar (s : Symbol) : Char :=
  alphabet.getD s.val 'q'

def symbol? (c : Char) : Option Symbol :=
  (List.finRange 32).find? fun s => s.toChar = c

theorem symbol?_toChar : ∀ s : Symbol, symbol? s.toChar = some s := by
  decide

theorem toChar_of_symbol? {c : Char} {s : Symbol} (h : symbol? c = some s) : s.toChar = c := by
  simpa using List.find?_some h

/-- The bits of a symbol, the highest first. -/
def bits (s : Symbol) : List Bool :=
  [s.val.testBit 4, s.val.testBit 3, s.val.testBit 2, s.val.testBit 1, s.val.testBit 0]

def ofBits (a b c d e : Bool) : Symbol :=
  Fin.ofNat 32 (16 * a.toNat + 8 * b.toNat + 4 * c.toNat + 2 * d.toNat + e.toNat)

theorem bits_ofBits : ∀ a b c d e : Bool, bits (ofBits a b c d e) = [a, b, c, d, e] := by
  decide

theorem ofBits_bits : ∀ s : Symbol,
    ofBits (s.val.testBit 4) (s.val.testBit 3) (s.val.testBit 2) (s.val.testBit 1) (s.val.testBit 0) = s := by
  decide

end Symbol

end ExemptZones.Address
