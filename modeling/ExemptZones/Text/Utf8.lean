import ExemptZones.Bytes

/-
The UTF-8 form of text. Keys and values of the store are byte strings; zone names and
addresses reach it through `encode` and come back through `decode?`.

`decode?_encode`: what was encoded reads back.
`decode?_eq_some_iff`: decoding accepts exactly what encoding produces, so a byte string stands for
at most one text.
-/

namespace ExemptZones

namespace Utf8

def encode (s : String) : Bytes :=
  s.toByteArray.data.toList

/-- The text whose UTF-8 form the bytes are, if there is one. -/
def decode? (b : Bytes) : Option String :=
  String.fromUTF8? ⟨b.toArray⟩

theorem decode?_encode (s : String) : decode? (encode s) = some s := by
  have h : (⟨s.toByteArray.data.toList.toArray⟩ : ByteArray) = s.toByteArray := by simp
  simp only [decode?, encode, h, String.fromUTF8?, dif_pos s.isValidUTF8]
  rfl

theorem decode?_eq_some_iff {b : Bytes} {s : String} : decode? b = some s ↔ b = encode s := by
  refine ⟨fun h => ?_, fun h => h ▸ decode?_encode s⟩
  unfold decode? String.fromUTF8? at h
  split at h
  · cases h; simp [encode, String.fromUTF8]
  · cases h

theorem encode_injective {s t : String} (h : encode s = encode t) : s = t := by
  have := decode?_encode s
  rw [h, decode?_encode] at this
  exact (Option.some.inj this).symm

end Utf8

end ExemptZones
