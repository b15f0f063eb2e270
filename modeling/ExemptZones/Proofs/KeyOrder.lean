import ExemptZones.Proofs.Contents
import ExemptZones.Text.Utf8

/-
The order of keys is the order of the texts they stand for: encoded texts compare byte by byte as the texts
do character by character.

`Utf8.encode_lt_encode_iff`: a scan of the store meets texts in their own order.
-/

namespace ExemptZones.Utf8

theorem encode_eq (s : String) : encode s = s.toList.flatMap String.utf8EncodeChar := by
  rw [encode, ← String.utf8Encode_toList, List.utf8Encode, List.toList_data_toByteArray]

theorem ofNat_lt_ofNat {a b : Nat} (ha : a < 256) (hb : b < 256) : UInt8.ofNat a < UInt8.ofNat b ↔ a < b := by
  rw [UInt8.lt_iff_toNat_lt, UInt8.toNat_ofNat_of_lt' ha, UInt8.toNat_ofNat_of_lt' hb]

theorem ofNat_eq_ofNat {a b : Nat} (ha : a < 256) (hb : b < 256) : UInt8.ofNat a = UInt8.ofNat b ↔ a = b := by
  rw [← UInt8.toNat_inj, UInt8.toNat_ofNat_of_lt' ha, UInt8.toNat_ofNat_of_lt' hb]

/-- Of two characters the lower has the lower encoding, whatever comes after. No encoding starts another, so
the first byte in which they differ decides. -/
theorem utf8EncodeChar_lt {c d : Char} (h : c < d) (x y : Bytes) :
    String.utf8EncodeChar c ++ x < String.utf8EncodeChar d ++ y := by
  have hlt : c.val.toNat < d.val.toNat := h
  have hd : d.val.toNat < 0xd800 ∨ 0xdfff < d.val.toNat ∧ d.val.toNat < 0x110000 := d.valid
  simp only [String.utf8EncodeChar]
  generalize c.val.toNat = n at *
  generalize d.val.toNat = m at *
  have h₂ : ∀ k : Nat, k / 4096 = k / 64 / 64 := fun k => by omega
  have h₃ : ∀ k : Nat, k / 262144 = k / 64 / 64 / 64 := fun k => by omega
  -- One case for each two lengths that the encodings may have. The bytes hold the digits to the base 64.
  repeat' split
  all_goals
    simp (disch := omega) only [List.cons_append, List.nil_append, List.cons_lt_cons_iff, ofNat_lt_ofNat,
      ofNat_eq_ofNat, h₂, h₃]
    omega

theorem flatMap_utf8EncodeChar_lt {cs ds : List Char} (h : cs < ds) :
    cs.flatMap String.utf8EncodeChar < ds.flatMap String.utf8EncodeChar := by
  induction cs generalizing ds with
  | nil =>
    cases ds with
    | nil => exact absurd h (List.lt_irrefl [])
    | cons d ds =>
      obtain ⟨b, bs, hb⟩ := List.exists_cons_of_ne_nil (String.utf8EncodeChar_ne_nil (c := d))
      rw [List.flatMap_cons, hb]
      exact List.nil_lt_cons b _
  | cons c cs ih =>
    cases ds with
    | nil => exact absurd h (List.not_lt_nil _)
    | cons d ds =>
      rw [List.flatMap_cons, List.flatMap_cons]
      rcases List.cons_lt_cons_iff.1 h with hlt | ⟨rfl, hlt⟩
      · exact utf8EncodeChar_lt hlt _ _
      · exact Bytes.append_lt_append.2 (ih hlt)

theorem encode_lt_encode {s t : String} (h : s < t) : encode s < encode t := by
  rw [encode_eq, encode_eq]
  exact flatMap_utf8EncodeChar_lt (String.lt_iff.1 h)

/-- **Keys are in the order of their texts.** -/
theorem encode_lt_encode_iff {s t : String} : encode s < encode t ↔ s < t := by
  refine ⟨fun h => ?_, encode_lt_encode⟩
  rcases Std.lt_trichotomy s t with hlt | rfl | hlt
  · exact hlt
  · exact absurd h (Bytes.lt_irrefl _)
  · exact absurd (Bytes.lt_trans h (encode_lt_encode hlt)) (Bytes.lt_irrefl _)

end ExemptZones.Utf8
