import Mathlib.Algebra.Group.Nat.Defs
import ExemptZones.Address.Checksum

/-
The checksum of an address is determined by what it is a checksum of. Bringing down values is linear in
exclusive or (`step_xor`), and six symbols brought down from nothing are the remainder that they spell
(`symbols_spell`, `spell_symbols`); so six symbols make the whole leave the remainder one in just one way.

`verify_append_iff`: a checksum is right if and only if it is the one that `create` makes.
-/

namespace ExemptZones.Address.Checksum

/-! ## Linearity -/

/-- The library's lemma for a zero that is written as a numeral. -/
theorem zero_xor (r : Residue) : 0 ^^^ r = r := BitVec.zero_xor

theorem xor_xor_self (r v : Residue) : r ^^^ (r ^^^ v) = v := by
  rw [← BitVec.xor_assoc, BitVec.xor_self]
  exact zero_xor v

theorem carry_eq (r : Residue) : carry r =
    (if r.getLsbD 25 then 0x3b6a57b2 else 0) ^^^ (if r.getLsbD 26 then 0x26508e6d else 0) ^^^
      (if r.getLsbD 27 then 0x1ea119fa else 0) ^^^ (if r.getLsbD 28 then 0x3d4233dd else 0) ^^^
      (if r.getLsbD 29 then 0x2a1462b3 else 0) := by
  simp [carry, generators]

theorem ite_xor (a b : Bool) (g : Residue) :
    (if (a ^^ b) = true then g else 0) = (if a = true then g else 0) ^^^ (if b = true then g else 0) := by
  cases a <;> cases b <;> simp

theorem carry_xor (r r' : Residue) : carry (r ^^^ r') = carry r ^^^ carry r' := by
  simp only [carry_eq, BitVec.getLsbD_xor, ite_xor]
  ac_rfl

theorem step_xor (r r' v v' : Residue) : step (r ^^^ r') (v ^^^ v') = step r v ^^^ step r' v' := by
  simp only [step, carry_xor, BitVec.shiftLeft_xor_distrib]
  ac_rfl

/-- Values brought down on a sum of remainders: on one of them they may be zeros. -/
theorem foldl_step_xor (r r' : Residue) (vs : List Residue) :
    vs.foldl step (r ^^^ r') = (List.replicate vs.length 0).foldl step r ^^^ vs.foldl step r' := by
  induction vs generalizing r r' with
  | nil => rfl
  | cons v vs ih =>
    have hv : step (r ^^^ r') v = step r 0 ^^^ step r' v := by rw [← step_xor, zero_xor]
    rw [List.foldl_cons, hv, ih]
    rfl

/-! ## Six symbols -/

/-- The remainder that symbols spell. -/
def spell (cs : List Symbol) : Residue :=
  (cs.map value).foldl step 0

theorem carry_of_lt {r : Residue} (h : r.toNat < 2 ^ 25) : carry r = 0 := by
  have hbit : ∀ i, 25 ≤ i → r.getLsbD i = false := fun i hi =>
    Nat.testBit_lt_two_pow (Nat.lt_of_lt_of_le h (Nat.pow_le_pow_right (by decide) hi))
  rw [carry_eq, hbit 25 (by decide), hbit 26 (by decide), hbit 27 (by decide), hbit 28 (by decide),
    hbit 29 (by decide)]
  rfl

/-- A symbol brought down on a remainder of five symbols or fewer is written behind it. -/
theorem toNat_step {r : Residue} (h : r.toNat < 2 ^ 25) (s : Symbol) :
    (step r (value s)).toNat = 32 * r.toNat + s.val := by
  have hs : (value s).toNat = s.val := by
    rw [value, BitVec.toNat_ofNat]
    exact Nat.mod_eq_of_lt (by omega)
  have hshift : (r <<< 5).toNat = 2 ^ 5 * r.toNat := by
    rw [BitVec.toNat_shiftLeft, Nat.shiftLeft_eq, Nat.mul_comm]
    exact Nat.mod_eq_of_lt (by omega)
  have hlt : s.val < 2 ^ 5 := s.isLt
  rw [step, carry_of_lt h, BitVec.xor_comm, zero_xor, BitVec.toNat_xor, hs, hshift]
  -- The shifted remainder and the symbol have no bit in common.
  refine Nat.eq_of_testBit_eq fun i => ?_
  have hm := Nat.testBit_two_pow_mul_add r.toNat (b := 0) (by decide : 0 < 2 ^ 5) i
  have ha := Nat.testBit_two_pow_mul_add r.toNat hlt i
  rw [Nat.add_zero] at hm
  rw [Nat.testBit_xor, hm, show 32 * r.toNat + s.val = 2 ^ 5 * r.toNat + s.val from rfl, ha]
  by_cases hi : i < 5
  · simp [hi]
  · have hbit : s.val.testBit i = false :=
      Nat.testBit_lt_two_pow (Nat.lt_of_lt_of_le hlt (Nat.pow_le_pow_right (by decide) (Nat.le_of_not_lt hi)))
    simp [hi, hbit]

/-- The number that symbols spell, if there are not more than six. -/
theorem toNat_foldl_step (cs : List Symbol) {r : Residue} (h : 32 ^ cs.length * (r.toNat + 1) ≤ 2 ^ 30) :
    ((cs.map value).foldl step r).toNat = cs.foldl (fun n c => 32 * n + c.val) r.toNat := by
  induction cs generalizing r with
  | nil => rfl
  | cons c cs ih =>
    have hpow : 32 ^ (c :: cs).length = 32 * 32 ^ cs.length := Nat.pow_succ'
    have hone : 1 ≤ 32 ^ cs.length := Nat.one_le_pow _ _ (by decide)
    have hr : r.toNat < 2 ^ 25 := by
      have := Nat.mul_le_mul_right (r.toNat + 1) hone
      rw [hpow, Nat.mul_assoc] at h
      omega
    have hstep := toNat_step hr c
    have hbound : 32 ^ cs.length * ((step r (value c)).toNat + 1) ≤ 2 ^ 30 := by
      have hle : (step r (value c)).toNat + 1 ≤ 32 * (r.toNat + 1) := by rw [hstep]; omega
      calc 32 ^ cs.length * ((step r (value c)).toNat + 1)
          ≤ 32 ^ cs.length * (32 * (r.toNat + 1)) := Nat.mul_le_mul_left _ hle
        _ = 32 ^ (c :: cs).length * (r.toNat + 1) := by rw [hpow, Nat.mul_left_comm, Nat.mul_assoc]
        _ ≤ 2 ^ 30 := h
    rw [List.map_cons, List.foldl_cons, List.foldl_cons, ih hbound, hstep]

theorem toNat_spell {cs : List Symbol} (h : cs.length ≤ 6) :
    (spell cs).toNat = cs.foldl (fun n c => 32 * n + c.val) 0 := by
  refine toNat_foldl_step cs ?_
  have := Nat.pow_le_pow_right (by decide : 0 < 32) h
  simpa using this

theorem length_symbols (r : Residue) : (symbols r).length = 6 := by
  simp [symbols]

/-- Six symbols can be read off the remainder that they spell. -/
theorem symbols_spell {cs : List Symbol} (h : cs.length = 6) : symbols (spell cs) = cs := by
  have hn := toNat_spell (Nat.le_of_eq h)
  match cs, h with
  | [a, b, c, d, e, f], _ =>
    simp only [List.foldl_cons, List.foldl_nil] at hn
    simp only [symbols, List.range_succ, List.range_zero, List.nil_append, List.map_cons, List.map_nil,
      List.cons_append, BitVec.toNat_ushiftRight, Nat.shiftRight_eq_div_pow, hn, List.cons.injEq,
      Fin.ext_iff, and_true]
    refine ⟨?_, ?_, ?_, ?_, ?_, ?_⟩ <;> omega

/-- Every remainder is spelled by six symbols. -/
theorem spell_symbols (r : Residue) : spell (symbols r) = r := by
  refine BitVec.eq_of_toNat_eq ?_
  rw [toNat_spell (Nat.le_of_eq (length_symbols r))]
  have hr := r.isLt
  simp only [symbols, List.range_succ, List.range_zero, List.nil_append, List.map_cons, List.map_nil,
    List.cons_append, BitVec.toNat_ushiftRight, Nat.shiftRight_eq_div_pow, List.foldl_cons,
    List.foldl_nil]
  omega

/-- **There is one checksum.** Six symbols make the whole leave the remainder one if and only if they are the
checksum. -/
theorem verify_append_iff {hrp : List Char} {data check : List Symbol} (h : check.length = 6) :
    verify hrp (data ++ check) = true ↔ check = create hrp data := by
  let zeros : Residue := residue (expand hrp ++ data.map value ++ List.replicate 6 0)
  have hres : residue (expand hrp ++ (data ++ check).map value) = zeros ^^^ spell check := by
    have hx := foldl_step_xor (residue (expand hrp ++ data.map value)) 0 (check.map value)
    rw [BitVec.xor_comm, zero_xor, List.length_map, h] at hx
    simp only [zeros, residue, List.map_append, ← List.append_assoc, List.foldl_append] at hx ⊢
    exact hx
  rw [verify, hres, beq_iff_eq]
  constructor
  · intro he
    show check = symbols (zeros ^^^ 1)
    rw [← he, xor_xor_self, symbols_spell h]
  · rintro rfl
    show zeros ^^^ spell (symbols (zeros ^^^ 1)) = 1
    rw [spell_symbols, xor_xor_self]

end ExemptZones.Address.Checksum
