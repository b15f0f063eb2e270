import ExemptZones.Decimal.Shortest

/-
The whole numbers among the 64-bit binary ones.
-/

namespace ExemptZones.Decimal

def Binary.whole? (b : Binary) : Option Nat :=
  let down := Nat.pow 2 (-b.q).toNat
  if b.m % down = 0 then some (b.m / down * Nat.pow 2 b.q.toNat) else none

/-- What a number is to a reader of integers. -/
inductive Wholeness where
  | notFinite
  | fraction
  | whole (i : Int)
  deriving DecidableEq, Repr

def wholeness (x : Float) : Wholeness :=
  match Magnitude.ofBits x.toBits with
  | .zero => .whole 0
  | .nan | .infinite => .notFinite
  | .finite b =>
    match b.whole? with
    | none => .fraction
    | some n => .whole (if isNegative x.toBits then -Int.ofNat n else Int.ofNat n)

end ExemptZones.Decimal
