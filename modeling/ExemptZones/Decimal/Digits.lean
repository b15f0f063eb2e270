import ExemptZones.Text.Blank

/-
Integers written by hand: blanks around, a sign if one is given, and digits of any script with single
underscores between them. There is a limit to how many digits are read, zeros in front included.
-/

namespace ExemptZones.Decimal

/-- The zeros of all scripts. Each is followed by its nine other digits. -/
def zeros : List Nat :=
  [0x30, 0x660, 0x6f0, 0x7c0, 0x966, 0x9e6, 0xa66, 0xae6, 0xb66, 0xbe6, 0xc66, 0xce6, 0xd66, 0xde6, 0xe50,
   0xed0, 0xf20, 0x1040, 0x1090, 0x17e0, 0x1810, 0x1946, 0x19d0, 0x1a80, 0x1a90, 0x1b50, 0x1bb0, 0x1c40,
   0x1c50, 0xa620, 0xa8d0, 0xa900, 0xa9d0, 0xa9f0, 0xaa50, 0xabf0, 0xff10, 0x104a0, 0x10d30, 0x11066,
   0x110f0, 0x11136, 0x111d0, 0x112f0, 0x11450, 0x114d0, 0x11650, 0x116c0, 0x11730, 0x118e0, 0x11950,
   0x11c50, 0x11d50, 0x11da0, 0x16a60, 0x16ac0, 0x16b50, 0x1d7ce, 0x1d7d8, 0x1d7e2, 0x1d7ec, 0x1d7f6,
   0x1e140, 0x1e2f0, 0x1e950, 0x1fbf0]

/-- The value of a decimal digit, as of Unicode 14. -/
def digitValue? (c : Char) : Option Nat :=
  (zeros.find? fun z => z ≤ c.toNat && c.toNat < z + 10).map (c.toNat - ·)

/-- The digits of a number, in which an underscore may stand between two of them. -/
def digitValues? : List Char → Option (List Nat)
  | [] => none
  | [c] => (digitValue? c).map fun d => [d]
  | c :: '_' :: cs => do
    let d ← digitValue? c
    return d :: (← digitValues? cs)
  | c :: cs => do
    let d ← digitValue? c
    return d :: (← digitValues? cs)

/-- The most digits that a number is read from. -/
def mostDigits : Nat := 4300

def unsigned? (cs : List Char) : Option Nat := do
  let ds ← digitValues? cs
  if ds.length ≤ mostDigits then some (ds.foldl (fun n d => 10 * n + d) 0) else none

def signed? : List Char → Option Int
  | '-' :: cs => (unsigned? cs).map fun n => -Int.ofNat n
  | '+' :: cs => (unsigned? cs).map Int.ofNat
  | cs => (unsigned? cs).map Int.ofNat

def readInteger? : Text → Option Int
  | .plain s => signed? (Text.trimBy Text.isBlank s.toList)
  | .broken _ => none

example : readInteger? " +1_000 " = some 1000 := by decide +kernel

example : readInteger? "1__0" = none := by decide +kernel

end ExemptZones.Decimal
