import ExemptZones.Address.Symbol

/-
The checksum of an address: the remainder of a division of polynomials over the field of 32
elements. The remainder has six symbols, the first in the highest five of its thirty bits.
-/

namespace ExemptZones.Address.Checksum

/-- Six symbols of five bits. -/
abbrev Residue := BitVec 30

def generators : List Residue :=
  [0x3b6a57b2, 0x26508e6d, 0x1ea119fa, 0x3d4233dd, 0x2a1462b3]

/-- What the symbol shifted out of a remainder adds to it. -/
def carry (r : Residue) : Residue :=
  (generators.zipIdx.map fun (g, i) => if r.getLsbD (25 + i) then g else 0).foldl (· ^^^ ·) 0

/-- Brings down one more value. -/
def step (r : Residue) (v : Residue) : Residue :=
  (r <<< 5) ^^^ v ^^^ carry r

def residue (vs : List Residue) : Residue :=
  vs.foldl step 1

/-- The values that stand for the readable part: the high bits of each character, a zero, the low
five bits of each. -/
def expand (hrp : List Char) : List Residue :=
  hrp.map (fun c => BitVec.ofNat 30 (c.toNat / 32)) ++ 0 :: hrp.map (fun c => BitVec.ofNat 30 (c.toNat % 32))

def value (s : Symbol) : Residue :=
  BitVec.ofNat 30 s.val

/-- The six symbols of a remainder. -/
def symbols (r : Residue) : List Symbol :=
  (List.range 6).map fun i => ⟨(r >>> (5 * (5 - i))).toNat % 32, Nat.mod_lt _ (by decide)⟩

/-- The checksum that makes the whole leave the remainder one. -/
def create (hrp : List Char) (data : List Symbol) : List Symbol :=
  symbols (residue (expand hrp ++ data.map value ++ List.replicate 6 0) ^^^ 1)

def verify (hrp : List Char) (data : List Symbol) : Bool :=
  residue (expand hrp ++ data.map value) == 1

end ExemptZones.Address.Checksum
