import ExemptZones.Proofs.JsonText

/-
The characters that JSON is written in. A control character in a text is written by an escape or a code, and in an ASCII
layout so is every character that is not ASCII; between texts stand blanks and line feeds.

`Json.Plain.printed`: so nothing else is written of a plain value.
-/

namespace ExemptZones.Json

open Text (hexDigit hexDigits)

/-- Line feeds and characters that are no control characters; in an ASCII layout only those of ASCII. -/
def Printed (ascii : Bool) (cs : List Char) : Prop :=
  ∀ c ∈ cs, c = '\n' ∨ 0x20 ≤ c.toNat ∧ (ascii = true → c.toNat < 0x7f)

section Printed

variable {ascii : Bool} {l : Layout} {cs ds : List Char} {c : Char}

@[simp] theorem printed_nil : Printed ascii [] := nofun

@[simp] theorem printed_cons :
    Printed ascii (c :: cs) ↔ (c = '\n' ∨ 0x20 ≤ c.toNat ∧ (ascii = true → c.toNat < 0x7f)) ∧ Printed ascii cs :=
  List.forall_mem_cons

@[simp] theorem printed_append : Printed ascii (cs ++ ds) ↔ Printed ascii cs ∧ Printed ascii ds :=
  List.forall_mem_append

theorem Printed.return_not_mem (h : Printed ascii cs) : '\r' ∉ cs := fun hm => by
  rcases h _ hm with h | ⟨h, -⟩ <;> exact absurd h (by decide)

theorem Printed.isAscii (h : Printed true cs) (hc : c ∈ cs) : c.toNat < 0x80 := by
  rcases h c hc with rfl | ⟨-, hlt⟩
  · decide
  · have := hlt rfl
    omega

/-! ## Texts -/

theorem printed_hexDigits (k n : Nat) : Printed ascii (hexDigits k n) := by
  induction k generalizing n with
  | zero => exact printed_nil
  | succ k ih =>
    have hd : ∀ d < 16, 0x20 ≤ (hexDigit d).toNat ∧ (hexDigit d).toNat < 0x7f := by decide
    have hlast := hd (n % 16) (Nat.mod_lt _ (by decide))
    simp [hexDigits, ih, hlast]

theorem printed_escape (c : Char) : Printed ascii (escape ascii c) := by
  have hcode : Printed ascii (code c) := by
    simp only [code]
    split <;> simp [unit, printed_hexDigits]
  unfold escape
  repeat' split
  all_goals try simp
  · exact hcode
  · rename_i h
    simp only [Bool.or_eq_true, Bool.and_eq_true, decide_eq_true_eq, not_or, not_and] at h
    exact .inr ⟨by omega, fun ha => by have := h.2 ha; omega⟩

theorem printed_text (s : String) : Printed ascii (text ascii s) := by
  have hchars : Printed ascii (s.toList.flatMap (escape ascii)) := fun d hd => by
    obtain ⟨c, -, hd⟩ := List.mem_flatMap.1 hd
    exact printed_escape c d hd
  simp [text, hchars]

/-! ## Values -/

theorem printed_newline (l : Layout) (n : Nat) : Printed ascii (newline l n) := by
  have hblank : Printed ascii (List.replicate (2 * n) ' ') := fun c hc =>
    .inr ((List.mem_replicate.1 hc).2 ▸ ⟨by decide, fun _ => by decide⟩)
  unfold newline
  split
  · simp [hblank]
  · exact printed_nil

theorem printed_itemChars {vs : List Value} {depth : Nat} (h : ∀ v ∈ vs, Printed ascii (chars l depth v)) :
    Printed ascii (itemChars l depth vs) := by
  induction vs with
  | nil => exact printed_nil
  | cons v vs ih =>
    obtain ⟨hv, hvs⟩ := List.forall_mem_cons.1 h
    simp [itemChars, printed_newline, hv, ih hvs]

theorem printed_keyChars (l : Layout) (k : String) : Printed l.ascii (keyChars l (.text k)) := by
  rw [keyChars]
  split <;> simp [printed_text]

theorem printed_entryChars {fs : List (String × Value)} {depth : Nat}
    (h : ∀ f ∈ fs, Printed l.ascii (chars l depth f.2)) :
    Printed l.ascii (entryChars l depth (fs.map fun f => (.text f.1, f.2))) := by
  induction fs with
  | nil => exact printed_nil
  | cons f fs ih =>
    obtain ⟨hf, hfs⟩ := List.forall_mem_cons.1 h
    simp [entryChars, printed_newline, printed_keyChars, hf, ih hfs]

/-- **What is written of a plain value** are line feeds and characters that are no control characters. -/
theorem Plain.printed {v : Value} (hv : Plain v) : ∀ depth, Printed l.ascii (chars l depth v) := by
  induction hv with
  | null => intro; simp [chars]
  | bool b => intro; cases b <;> simp [chars]
  | text s => intro; simpa only [chars] using printed_text s
  | @list vs _ ih =>
    intro depth
    cases vs with
    | nil => simp [chars]
    | cons v vs =>
      obtain ⟨hv, hvs⟩ := List.forall_mem_cons.1 ih
      simp [chars, printed_newline, hv, printed_itemChars fun w hw => hvs w hw (depth + 1)]
  | @object fs _ _ ih =>
    intro depth
    cases fs with
    | nil => simp [chars, Value.object]
    | cons f fs =>
      obtain ⟨hf, hfs⟩ := List.forall_mem_cons.1 ih
      simp [chars, Value.object, printed_newline, printed_keyChars, hf,
        printed_entryChars fun w hw => hfs w hw (depth + 1)]

end Printed

end ExemptZones.Json
