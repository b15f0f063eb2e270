import ExemptZones.Text.Utf8
import ExemptZones.Address.Symbol

/-
Bytes regrouped as five-bit symbols and back. The last symbol is filled up with zeros; on the way
back what is left over must be that filling: fewer than five bits, all zero.

`toBytes?_ofBytes`: regrouped bytes come back.
`ofBytes_of_toBytes?`: and no other symbols give them.
-/

namespace ExemptZones.Address.Regroup

/-- The bits of a byte, the highest first. -/
def byteBits (b : UInt8) : List Bool :=
  (List.range 8).map fun i => b.toNat.testBit (7 - i)

def byteOfBits (a b c d e f g h : Bool) : UInt8 :=
  UInt8.ofNat (128 * a.toNat + 64 * b.toNat + 32 * c.toNat + 16 * d.toNat +
    8 * e.toNat + 4 * f.toNat + 2 * g.toNat + h.toNat)

/-- Groups of five bits; the last is filled up with zeros. -/
def symbols : List Bool → List Symbol
  | [] => []
  | a :: b :: c :: d :: e :: r => Symbol.ofBits a b c d e :: symbols r
  | [a, b, c, d] => [Symbol.ofBits a b c d false]
  | [a, b, c] => [Symbol.ofBits a b c false false]
  | [a, b] => [Symbol.ofBits a b false false false]
  | [a] => [Symbol.ofBits a false false false false]

/-- Groups of eight bits. What is left over is refused unless it is filling. -/
def bytes? : List Bool → Option Bytes
  | a :: b :: c :: d :: e :: f :: g :: h :: r => (bytes? r).map (byteOfBits a b c d e f g h :: ·)
  | r => if r.length < 5 && r.all (!·) then some [] else none

def ofBytes (b : Bytes) : List Symbol :=
  symbols (b.flatMap byteBits)

def toBytes? (s : List Symbol) : Option Bytes :=
  bytes? (s.flatMap Symbol.bits)

/-- Symbols made from bits hold these bits, and fewer than five zeros after them. -/
theorem flatMap_bits_symbols (bs : List Bool) :
    ∃ k < 5, (symbols bs).flatMap Symbol.bits = bs ++ List.replicate k false := by
  fun_induction symbols bs with
  | case1 => exact ⟨0, by decide, rfl⟩
  | case2 a b c d e r ih =>
    obtain ⟨k, hk, h⟩ := ih
    exact ⟨k, hk, by simp [Symbol.bits_ofBits, h]⟩
  | case3 a b c d => exact ⟨1, by decide, by simp [Symbol.bits_ofBits]⟩
  | case4 a b c => exact ⟨2, by decide, by simp [Symbol.bits_ofBits, List.replicate]⟩
  | case5 a b => exact ⟨3, by decide, by simp [Symbol.bits_ofBits, List.replicate]⟩
  | case6 a => exact ⟨4, by decide, by simp [Symbol.bits_ofBits, List.replicate]⟩

theorem byteBits_eq (b : UInt8) : byteBits b =
    [b.toNat.testBit 7, b.toNat.testBit 6, b.toNat.testBit 5, b.toNat.testBit 4,
      b.toNat.testBit 3, b.toNat.testBit 2, b.toNat.testBit 1, b.toNat.testBit 0] := rfl

private theorem byteOfBits_testBit : ∀ n < 256,
    byteOfBits (n.testBit 7) (n.testBit 6) (n.testBit 5) (n.testBit 4) (n.testBit 3) (n.testBit 2)
      (n.testBit 1) (n.testBit 0) = UInt8.ofNat n := by
  decide +kernel

theorem bytes?_byteBits_append (b : UInt8) (r : List Bool) :
    bytes? (byteBits b ++ r) = (bytes? r).map (b :: ·) := by
  have h := byteOfBits_testBit b.toNat b.toNat_lt
  simp only [byteBits_eq, List.cons_append, List.nil_append, bytes?, h, UInt8.ofNat_toNat]

/-- Bytes read back from their bits, whatever filling follows. -/
theorem bytes?_flatMap_append {k : Nat} (hk : k < 5) (b : Bytes) :
    bytes? (b.flatMap byteBits ++ List.replicate k false) = some b := by
  induction b with
  | nil =>
    have hfill : ∀ k < 5, bytes? (List.replicate k false) = some [] := by decide
    simpa using hfill k hk
  | cons b bs ih => rw [List.flatMap_cons, List.append_assoc, bytes?_byteBits_append, ih]; rfl

theorem toBytes?_ofBytes (b : Bytes) : toBytes? (ofBytes b) = some b := by
  obtain ⟨k, hk, h⟩ := flatMap_bits_symbols (b.flatMap byteBits)
  rw [toBytes?, ofBytes, h]
  exact bytes?_flatMap_append hk b

/-! ### The way back -/

private theorem byteBits_byteOfBits : ∀ a b c d e f g h : Bool,
    byteBits (byteOfBits a b c d e f g h) = [a, b, c, d, e, f, g, h] := by
  decide +kernel

/-- What is read as bytes are their bits, and fewer than five zeros after them. -/
theorem eq_of_bytes? {bs : List Bool} {b : Bytes} (h : bytes? bs = some b) :
    ∃ k < 5, bs = b.flatMap byteBits ++ List.replicate k false := by
  fun_induction bytes? bs generalizing b with
  | case1 x₁ x₂ x₃ x₄ x₅ x₆ x₇ x₈ r ih =>
    obtain ⟨bs, hbs, rfl⟩ := Option.map_eq_some_iff.1 h
    obtain ⟨k, hk, rfl⟩ := ih hbs
    exact ⟨k, hk, by simp [byteBits_byteOfBits]⟩
  | case2 r _ hr =>
    cases h
    simp only [Bool.and_eq_true, decide_eq_true_eq, List.all_eq_true, Bool.not_eq_true'] at hr
    exact ⟨r.length, hr.1, by simpa using List.eq_replicate_iff.2 ⟨rfl, hr.2⟩⟩
  | case3 => cases h

theorem symbols_flatMap_bits (s : List Symbol) : symbols (s.flatMap Symbol.bits) = s := by
  induction s with
  | nil => rfl
  | cons c s ih =>
    rw [List.flatMap_cons, Symbol.bits]
    simp only [List.cons_append, List.nil_append, symbols, Symbol.ofBits_bits, ih]

theorem length_flatMap_bits (s : List Symbol) : (s.flatMap Symbol.bits).length = 5 * s.length := by
  induction s with
  | nil => rfl
  | cons c s ih =>
    have hc : (Symbol.bits c).length = 5 := rfl
    rw [List.flatMap_cons, List.length_append, hc, ih, List.length_cons]
    omega

/-- **Symbols that stand for bytes are those that the bytes regroup to.** The number of bits fixes how many zeros
fill the last symbol. -/
theorem ofBytes_of_toBytes? {s : List Symbol} {b : Bytes} (h : toBytes? s = some b) : ofBytes b = s := by
  obtain ⟨k, hk, hs⟩ := eq_of_bytes? h
  obtain ⟨k', hk', hb⟩ := flatMap_bits_symbols (b.flatMap byteBits)
  have hk₁ := length_flatMap_bits s
  have hk₂ := length_flatMap_bits (symbols (b.flatMap byteBits))
  rw [hs, List.length_append, List.length_replicate] at hk₁
  rw [hb, List.length_append, List.length_replicate] at hk₂
  obtain rfl : k = k' := by omega
  rw [← symbols_flatMap_bits s, hs, ← hb, symbols_flatMap_bits]
  rfl

end ExemptZones.Address.Regroup
