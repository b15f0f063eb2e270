import Mathlib
import ExemptZones.Proofs.Checksum
import ExemptZones.Proofs.Soundness

/-
Addresses correspond one to one to the bytes they stand for. An accepted address is a readable part, the last
`1`, the symbols that the bytes regroup to and their checksum, and nothing else is accepted.

`decode?_written`, `eq_written_of_decode?`: of the texts without an upper-case letter those decode that are
written from a readable part and symbols.
`validate_eq_ok_iff`: the texts that are accepted for a readable part are those that `encode` writes for it.
`codec_bijective`: one accepted text for each account, and one key for it among the memberships.
-/

namespace ExemptZones.Address

/-! ## Characters -/

/-- A printable character of ASCII that is no blank and no upper-case letter. -/
def IsPlain (c : Char) : Prop :=
  33 ≤ c.toNat ∧ c.toNat ≤ 126 ∧ c.isUpper = false

theorem map_toLower {cs : List Char} (h : ∀ c ∈ cs, c.isUpper = false) : cs.map Char.toLower = cs :=
  (List.map_congr_left fun c hc => Char.toLower_eq_of_not_isUpper (by simp [h c hc])).trans (List.map_id' cs)

theorem Symbol.isPlain_toChar : ∀ s : Symbol, IsPlain s.toChar := by
  unfold IsPlain
  decide

/-- The separator is no symbol. -/
theorem Symbol.toChar_ne_one : ∀ s : Symbol, s.toChar ≠ '1' := by
  decide

theorem mapM_symbol?_map_toChar (data : List Symbol) : (data.map Symbol.toChar).mapM Symbol.symbol? = some data := by
  induction data with
  | nil => rfl
  | cons s data ih => simp [Symbol.symbol?_toChar, ih]

theorem eq_map_toChar_of_mapM {cs : List Char} {data : List Symbol} (h : cs.mapM Symbol.symbol? = some data) :
    cs = data.map Symbol.toChar := by
  induction cs generalizing data with
  | nil => cases h; rfl
  | cons c cs ih =>
    simp only [List.mapM_cons, Option.bind_eq_bind, Option.bind_eq_some_iff, Option.pure_def,
      Option.some.injEq] at h
    obtain ⟨s, hs, rest, hrest, rfl⟩ := h
    rw [List.map_cons, Symbol.toChar_of_symbol? hs, ← ih hrest]

/-! ## The last separator -/

theorem splitLast_eq_none_iff {cs : List Char} : splitLast cs = none ↔ '1' ∉ cs := by
  induction cs with
  | nil => simp [splitLast]
  | cons c cs ih =>
    rw [splitLast]
    cases h : splitLast cs with
    | some p => simpa [h] using fun _ => (not_congr ih).1 (by simp [h])
    | none =>
      have hcs : '1' ∉ cs := ih.1 h
      by_cases hc : c = '1' <;> simp [hc, hcs, eq_comm]

theorem splitLast_append (a : List Char) {b : List Char} (h : '1' ∉ b) : splitLast (a ++ '1' :: b) = some (a, b) := by
  induction a with
  | nil => simp [splitLast, splitLast_eq_none_iff.2 h]
  | cons c a ih => simp [splitLast, ih]

theorem eq_of_splitLast {cs a b : List Char} (h : splitLast cs = some (a, b)) : cs = a ++ '1' :: b := by
  induction cs generalizing a with
  | nil => cases h
  | cons c cs ih =>
    rw [splitLast] at h
    cases hs : splitLast cs with
    | some p =>
      rw [hs] at h
      cases h
      rw [List.cons_append, ← ih hs]
    | none =>
      rw [hs] at h
      by_cases hc : c = '1'
      · rw [if_pos hc] at h
        cases h
        rw [hc, List.nil_append]
      · rw [if_neg hc] at h
        cases h

/-! ## What decodes -/

theorem decode?_eq_some_iff {s hrp : String} {data : List Symbol} :
    decode? s = some (hrp, data) ↔
      (∀ c ∈ s.toList, 33 ≤ c.toNat ∧ c.toNat ≤ 126) ∧
      (s.toList.map Char.toLower = s.toList ∨ s.toList.map Char.toUpper = s.toList) ∧
      ∃ part rest, splitLast (s.toList.map Char.toLower) = some (part, rest) ∧
        (1 ≤ part.length ∧ part.length ≤ 83 ∧ 6 ≤ rest.length) ∧
        ∃ symbols, rest.mapM Symbol.symbol? = some symbols ∧ Checksum.verify part symbols = true ∧
          String.ofList part = hrp ∧ symbols.take (symbols.length - 6) = data := by
  simp only [decode?, Option.bind_eq_bind, Option.bind_eq_some_iff, Option.guard_eq_some', exists_const,
    List.all_eq_true, Bool.and_eq_true, Bool.or_eq_true, decide_eq_true_eq, Prod.exists, and_assoc,
    Option.pure_def, Option.some.injEq, Prod.mk.injEq]

/-! ## The readable part and the symbols -/

/-- What the readable part of an accepted address is like. -/
structure ReadablePart (hrp : String) : Prop where
  pos : 1 ≤ hrp.length
  le : hrp.length ≤ 83
  plain : ∀ c ∈ hrp.toList, IsPlain c

/-- The characters of an address with a readable part and symbols. -/
def written (hrp : String) (data : List Symbol) : List Char :=
  hrp.toList ++ '1' :: (data ++ Checksum.create hrp.toList data).map Symbol.toChar

theorem encode_eq (raw : Bytes) (hrp : String) : encode raw hrp = String.ofList (written hrp (Regroup.ofBytes raw)) :=
  rfl

section Written

variable {hrp : String} {data : List Symbol}

theorem isPlain_of_mem_written (h : ReadablePart hrp) : ∀ c ∈ written hrp data, IsPlain c := by
  intro c hc
  rcases List.mem_append.1 hc with hc | hc
  · exact h.plain c hc
  · rcases List.mem_cons.1 hc with rfl | hc
    · exact ⟨by decide, by decide, by decide⟩
    · obtain ⟨s, -, rfl⟩ := List.mem_map.1 hc
      exact s.isPlain_toChar

theorem decode?_written (h : ReadablePart hrp) : decode? (String.ofList (written hrp data)) = some (hrp, data) := by
  have hplain : ∀ c ∈ written hrp data, IsPlain c := isPlain_of_mem_written h
  have hlower : (written hrp data).map Char.toLower = written hrp data :=
    map_toLower fun c hc => (hplain c hc).2.2
  let symbols := data ++ Checksum.create hrp.toList data
  have hcheck : (Checksum.create hrp.toList data).length = 6 := Checksum.length_symbols _
  have hlen : (symbols.map Symbol.toChar).length = data.length + 6 := by simp [symbols, hcheck]
  have hsep : '1' ∉ symbols.map Symbol.toChar := by
    intro hm
    obtain ⟨s, -, hs⟩ := List.mem_map.1 hm
    exact s.toChar_ne_one hs
  rw [decode?_eq_some_iff, String.toList_ofList, hlower]
  refine ⟨fun c hc => ⟨(hplain c hc).1, (hplain c hc).2.1⟩, .inl rfl, hrp.toList, symbols.map Symbol.toChar,
    splitLast_append _ hsep, ?_, symbols, mapM_symbol?_map_toChar symbols, ?_, String.ofList_toList, ?_⟩
  · rw [String.length_toList]
    exact ⟨h.pos, h.le, by omega⟩
  · exact (Checksum.verify_append_iff hcheck).2 rfl
  · simp [symbols, hcheck]

/-- The checksum that verifies is the one that is written: there is one. -/
theorem eq_written_of_decode? {a : String} (hu : ∀ c ∈ a.toList, c.isUpper = false)
    (h : decode? a = some (hrp, data)) : ReadablePart hrp ∧ a = String.ofList (written hrp data) := by
  rw [decode?_eq_some_iff, map_toLower hu] at h
  obtain ⟨hascii, -, part, rest, hsplit, ⟨hpos, hle, hrest⟩, symbols, hsymbols, hverify, rfl, rfl⟩ := h
  have ha : a.toList = part ++ '1' :: rest := eq_of_splitLast hsplit
  have hr : rest = symbols.map Symbol.toChar := eq_map_toChar_of_mapM hsymbols
  have hlen : 6 ≤ symbols.length := by simpa [hr] using hrest
  constructor
  · have hplain : ∀ c ∈ part, IsPlain c := by
      intro c hc
      have hm : c ∈ a.toList := by rw [ha]; exact List.mem_append_left _ hc
      exact ⟨(hascii c hm).1, (hascii c hm).2, hu c hm⟩
    exact ⟨by simpa using hpos, by simpa using hle, by simpa using hplain⟩
  · let data := symbols.take (symbols.length - 6)
    let check := symbols.drop (symbols.length - 6)
    have hcut : data ++ check = symbols := List.take_append_drop _ symbols
    have hcheck : check = Checksum.create part data := by
      have hsix : check.length = 6 := by
        rw [List.length_drop]
        omega
      rw [← Checksum.verify_append_iff hsix, hcut]
      exact hverify
    calc a = String.ofList a.toList := String.ofList_toList.symm
      _ = String.ofList (part ++ '1' :: (data ++ check).map Symbol.toChar) := by rw [ha, hr, hcut]
      _ = String.ofList (written (String.ofList part) data) := by rw [hcheck, written, String.toList_ofList]

end Written

/-! ## What is accepted -/

theorem unless_eq_ok {ε α β : Type} {c : Prop} [Decidable c] {e : ε} {f : β → Except ε α} {m : Except ε α} {r : α} :
    (if c then throw e >>= f else m) = .ok r ↔ ¬c ∧ m = .ok r := by
  by_cases hc : c
  · rw [if_pos hc]
    exact iff_of_false (fun h => nomatch h) fun h => h.1 hc
  · rw [if_neg hc]
    exact (and_iff_right hc).symm

/-- A text is accepted when none of the checks refuses it. -/
theorem validate_eq_ok {a hrp : String} {raw : Bytes} :
    validate a hrp = .ok raw ↔
      a.toList.all Text.isBlank = false ∧ a.toList.any Char.isUpper = false ∧
        ∃ data, decode? a = some (hrp, data) ∧ Regroup.toBytes? data = some raw ∧ raw ≠ [] ∧
          raw.length ≤ maxLength := by
  unfold validate
  rw [unless_eq_ok, Bool.not_eq_true]
  refine and_congr_right fun _ => ?_
  cases hd : decode? a with
  | none => exact iff_of_false (fun h => nomatch h) fun ⟨_, _, h, _⟩ => nomatch h
  | some p =>
    obtain ⟨got, data⟩ := p
    rw [unless_eq_ok, unless_eq_ok, Bool.not_eq_true, Classical.not_not]
    refine and_congr_right fun _ => ?_
    cases hr : Regroup.toBytes? data with
    | none =>
      refine iff_of_false (fun h => nomatch h.2) ?_
      rintro ⟨_, h, hb, -⟩
      cases h
      exact nomatch hr.symm.trans hb
    | some b =>
      rw [unless_eq_ok, unless_eq_ok]
      constructor
      · rintro ⟨rfl, hne, hle, h⟩
        cases h
        exact ⟨data, rfl, hr, by simpa using hne, Nat.le_of_not_lt hle⟩
      · rintro ⟨_, h, hb, hne, hle⟩
        cases h
        cases hr.symm.trans hb
        exact ⟨rfl, by simpa using hne, Nat.not_lt.2 hle, rfl⟩

/-- **The text that `encode` writes, and no other, is accepted.** -/
theorem validate_eq_ok_iff {a : Text} {hrp : String} {raw : Bytes} :
    validate a hrp = .ok raw ↔
      ReadablePart hrp ∧ (1 ≤ raw.length ∧ raw.length ≤ maxLength) ∧ a = encode raw hrp := by
  obtain a | b := a
  case broken => exact iff_of_false (fun h => nomatch h) fun h => nomatch h.2.2
  rw [validate_eq_ok, Text.plain.injEq]
  constructor
  · rintro ⟨-, hu, data, hdata, hraw, hne, hle⟩
    obtain ⟨hhrp, ha⟩ := eq_written_of_decode? (by simpa using hu) hdata
    rw [← Regroup.ofBytes_of_toBytes? hraw, ← encode_eq] at ha
    exact ⟨hhrp, ⟨List.length_pos_iff.2 hne, hle⟩, ha⟩
  · rintro ⟨hhrp, ⟨hpos, hle⟩, rfl⟩
    have hplain : ∀ c ∈ (encode raw hrp).toList, IsPlain c := by
      rw [encode_eq, String.toList_ofList]
      exact isPlain_of_mem_written hhrp
    refine ⟨?_, ?_, Regroup.ofBytes raw, decode?_written hhrp, Regroup.toBytes?_ofBytes raw,
      List.length_pos_iff.1 hpos, hle⟩
    · have hmem : '1' ∈ (encode raw hrp).toList := by simp [encode_eq, written]
      rw [List.all_eq_false]
      exact ⟨'1', hmem, by decide⟩
    · rw [List.any_eq_false]
      exact fun c hc => by simp [(hplain c hc).2.2]

theorem eq_encode {a : Text} {hrp : String} {raw : Bytes} (h : validate a hrp = .ok raw) : a = encode raw hrp :=
  (validate_eq_ok_iff.1 h).2.2

theorem validate_of_not_readablePart {hrp : String} (h : ¬ReadablePart hrp) (a : Text) :
    ∃ fault, validate a hrp = .error fault := by
  cases hv : validate a hrp with
  | error fault => exact ⟨fault, rfl⟩
  | ok raw => exact absurd (validate_eq_ok_iff.1 hv).1 h

end ExemptZones.Address

namespace ExemptZones.Registry

open Address (validate encode ReadablePart)

/-- The key `k` of a membership is the text of an accepted address that stands for `raw`. -/
def KeyOf (hrp : String) (raw : Bytes) (k : Bytes) : Prop :=
  ∃ a : String, k = Utf8.encode a ∧ validate a hrp = .ok raw

theorem KeyOf.eq {hrp : String} {raw k k' : Bytes} (h : KeyOf hrp raw k) (h' : KeyOf hrp raw k') : k' = k := by
  obtain ⟨a, rfl, ha⟩ := h
  obtain ⟨a', rfl, ha'⟩ := h'
  rw [Text.plain.inj (Address.eq_encode ha), Text.plain.inj (Address.eq_encode ha')]

/-- Where the records are sound, a membership is kept under an accepted address. -/
theorem Sound.exists_keyOf {hrp : String} {r : Records} (h : Sound hrp r) {k : Bytes}
    (hk : (r.get? (memberView.key k)).isSome) : ∃ raw, KeyOf hrp raw k := by
  obtain ⟨v, hv⟩ := Option.isSome_iff_exists.1 hk
  rcases (h _ (Records.mem_entries_iff.2 hv)).eq with ⟨z, -, hz, -⟩ | ⟨a, zone, ⟨raw, ha⟩, -, hm, -⟩
  · exact absurd hz.symm (zoneView_key_ne_memberView_key _ _)
  · exact ⟨raw, a, View.key_injective hm, ha⟩

/-- **Addresses and accounts correspond one to one.** With a readable part of 1 to 83 printable characters, none an
upper-case letter, a text is accepted for bytes just when there are 1 to 255 of them and it is what they are written
as; with any other readable part no text is accepted. So an account has one accepted address, and in every registry
that can be reached each membership is kept under the address of an account that no other membership is kept
under. -/
theorem codec_bijective :
    (∀ hrp, ReadablePart hrp → ∀ a raw,
      validate a hrp = .ok raw ↔ (1 ≤ raw.length ∧ raw.length ≤ 255) ∧ a = encode raw hrp) ∧
    (∀ hrp, ¬ReadablePart hrp → ∀ a, ∃ fault, validate a hrp = .error fault) ∧
    (∀ hrp, ReadablePart hrp → ∀ raw : Bytes, 1 ≤ raw.length → raw.length ≤ 255 → ∃! a, validate a hrp = .ok raw) ∧
    (∀ cfg s, Reachable cfg s → ∀ r, r = s.records ∨ r = s.store.committed →
      ∀ k, (r.get? (memberView.key k)).isSome →
        ∃ raw, KeyOf cfg.addressPrefix raw k ∧
          ∀ k', (r.get? (memberView.key k')).isSome → KeyOf cfg.addressPrefix raw k' → k' = k) := by
  refine ⟨fun hrp h a raw => ?_, fun hrp h => Address.validate_of_not_readablePart h, fun hrp h raw hpos hle => ?_,
    fun cfg s hs r hr k hk => ?_⟩
  · rw [Address.validate_eq_ok_iff, and_iff_right h]
    rfl
  · exact ⟨encode raw hrp, Address.validate_eq_ok_iff.2 ⟨h, ⟨hpos, hle⟩, rfl⟩, fun a ha => Address.eq_encode ha⟩
  · have hsound : Sound cfg.addressPrefix r := by
      rcases hr with rfl | rfl
      · exact hs.upholds.working
      · exact hs.upholds.committed
    obtain ⟨raw, hraw⟩ := hsound.exists_keyOf hk
    exact ⟨raw, hraw, fun k' _ hk' => hraw.eq hk'⟩

/-- A readable part that holds the separator; the address of one byte, and of the byte as a member. -/
theorem codec_bijective_separator :
    let cfg : Settings := { addressPrefix := "a1" }
    let script : Script Change := .seq (.step (.edit (.addZone ⟨{}, "z"⟩)))
      (.step (.edit (.addAddress "z" "a119gl65zzw")))
    let r := ((script.run (Change.act cfg)).run start).2.records
    validate "a119gl65zzw" "a1" = .ok [0x2a] ∧
      (∃ fault, validate "A119GL65ZZW" "A1" = .error fault) ∧
      (∃! a, validate a "a1" = .ok [0x2a]) ∧
      (r.get? (memberView.key (Utf8.encode "a119gl65zzw"))).isSome ∧
      ∃ raw, KeyOf "a1" raw (Utf8.encode "a119gl65zzw") ∧
        ∀ k', (r.get? (memberView.key k')).isSome → KeyOf "a1" raw k' → k' = Utf8.encode "a119gl65zzw" := by
  intro cfg script r
  have hpart : ReadablePart "a1" := by
    refine ⟨by decide, by decide, fun c hc => ?_⟩
    have hc : c = 'a' ∨ c = '1' := by simpa using hc
    rcases hc with rfl | rfl <;> exact ⟨by decide, by decide, by decide⟩
  have hnot : ¬ReadablePart "A1" := by
    intro h
    have hu : 'A'.isUpper = false := (h.plain 'A' (by decide)).2.2
    have hu' : 'A'.isUpper = true := by decide
    exact nomatch hu.symm.trans hu'
  have hk : (r.get? (memberView.key (Utf8.encode "a119gl65zzw"))).isSome := by decide +kernel
  exact ⟨(codec_bijective.1 "a1" hpart _ _).2 ⟨by decide, by decide +kernel⟩,
    codec_bijective.2.1 "A1" hnot _,
    codec_bijective.2.2.1 "a1" hpart _ (by decide) (by decide), hk,
    codec_bijective.2.2.2 cfg _ ⟨script, script.end_mem_states start⟩ r (.inl rfl) _ hk⟩

end ExemptZones.Registry
