import ExemptZones.Zone

/-
What is written as JSON reads back, on one line or spread over many, whether characters outside ASCII stand for
themselves or are written by their codes. This is so for the values that records, snapshots and listings are made
of: no numbers, and in an object no name twice.

`read_write`: the text of a value stands for that value and for no other.
`Zone.decode_encode`: so does the record of a zone, whatever its name.
-/

namespace ExemptZones.Json

open Text (Piece hexDigit hexDigits)

/-! ## Texts -/

theorem hexValue?_hexDigit : ∀ n < 16, hexValue? (hexDigit n) = some n := by decide

theorem unit?_hexDigits {n : Nat} (h : n < 0x10000) :
    ∃ a b c d, hexDigits 4 n = [a, b, c, d] ∧ unit? a b c d = some n := by
  refine ⟨hexDigit (n / 16 / 16 / 16 % 16), hexDigit (n / 16 / 16 % 16), hexDigit (n / 16 % 16), hexDigit (n % 16),
    rfl, ?_⟩
  have hlt : ∀ k, k % 16 < 16 := fun k => Nat.mod_lt k (by decide)
  simp only [unit?, hexValue?_hexDigit _ (hlt _), Option.bind_eq_bind, Option.bind_some, Option.pure_def,
    Option.some.injEq]
  omega

/-- What is read of a text that starts with these pieces. -/
def ahead (ps : List Piece) (p : List Piece × List Char) : List Piece × List Char :=
  (ps ++ p.1, p.2)

/-- A character with a short escape. -/
theorem readText_short {e c : Char} (hu : e ≠ 'u') (he : escapes.lookup e = some c) (cs : List Char) :
    readText ('\\' :: e :: cs) = (readText cs).map (ahead [.char c]) := by
  rw [readText]
  · rw [he]
    cases readText cs <;> rfl
  · exact fun _ _ _ _ _ hr _ => absurd hr hu

/-- A character that stands for itself. -/
theorem readText_self {c : Char} (hq : c ≠ '"') (hb : c ≠ '\\') (hc : ¬ c.toNat < 0x20) (cs : List Char) :
    readText (c :: cs) = (readText cs).map (ahead [.char c]) := by
  rw [readText]
  · rw [if_neg hc]
    cases readText cs <;> rfl
  · simpa using hq
  · simp [hb]
  · simp [hb]

/-- A code is read as its character, or as half of a pair. -/
theorem readText_unit {n : Nat} (hn : n < 0x10000) (cs : List Char) :
    readText (unit n ++ cs) =
      (readText cs).map (ahead [if isHigh n || isLow n then .half n else .char (Char.ofNat n)]) := by
  obtain ⟨a, b, x, d, hd, hu⟩ := unit?_hexDigits hn
  have hs : unit n ++ cs = '\\' :: 'u' :: a :: b :: x :: d :: cs := by rw [unit, hd]; rfl
  rw [hs, readText, hu]
  cases readText cs <;> rfl

/-- The pieces that the code of a character is read as: the character, or the two halves that stand for it. -/
def piecesOfCode (c : Char) : List Piece :=
  if c.toNat < 0x10000 then [.char c]
  else [.half (0xd800 + (c.toNat - 0x10000) / 1024), .half (0xdc00 + (c.toNat - 0x10000) % 1024)]

/-- No character is half of a pair, and two halves have room for each. -/
theorem toNat_ranges (c : Char) : c.toNat < 0xd800 ∨ 0xdfff < c.toNat ∧ c.toNat < 0x110000 :=
  c.valid

/-- A character by its code. -/
theorem readText_code (c : Char) (cs : List Char) :
    readText (code c ++ cs) = (readText cs).map (ahead (piecesOfCode c)) := by
  have hc := toNat_ranges c
  unfold code piecesOfCode
  by_cases h : c.toNat < 0x10000
  · have hh : (isHigh c.toNat || isLow c.toNat) = false := by
      simp only [isHigh, isLow, Bool.or_eq_false_iff, Bool.and_eq_false_iff, decide_eq_false_iff_not]
      omega
    rw [if_pos h, if_pos h, readText_unit h, hh, if_neg (by decide), Char.ofNat_toNat]
  · have hhigh : isHigh (0xd800 + (c.toNat - 0x10000) / 1024) = true := by
      simp only [isHigh, Bool.and_eq_true, decide_eq_true_eq]
      omega
    have hlow : isLow (0xdc00 + (c.toNat - 0x10000) % 1024) = true := by
      simp only [isLow, Bool.and_eq_true, decide_eq_true_eq]
      omega
    rw [if_neg h, if_neg h, List.append_assoc, readText_unit (by omega), readText_unit (by omega), hhigh, hlow,
      Bool.or_true, Bool.true_or, if_pos rfl, if_pos rfl]
    cases readText cs <;> rfl

/-- The pieces that a character is read as, if it is written in that way. -/
def pieces (ascii : Bool) (c : Char) : List Piece :=
  if ascii then piecesOfCode c else [.char c]

/-- A character as it is written is read as that character. -/
theorem readText_escape (ascii : Bool) (c : Char) (cs : List Char) :
    readText (escape ascii c ++ cs) = (readText cs).map (ahead (pieces ascii c)) := by
  -- Only characters far outside ASCII are read as more than one piece.
  have hone : c.toNat < 0x10000 → pieces ascii c = [.char c] := fun h => by
    unfold pieces piecesOfCode
    rw [if_pos h, ite_self]
  have hshort : ∀ e, c.toNat < 0x10000 → e ≠ 'u' → escapes.lookup e = some c →
      readText (['\\', e] ++ cs) = (readText cs).map (ahead (pieces ascii c)) := fun e hc hu he => by
    rw [hone hc]
    exact readText_short hu he cs
  unfold escape
  by_cases h₁ : c = '"'
  · subst h₁; exact hshort _ (by decide) (by decide) rfl
  by_cases h₂ : c = '\\'
  · subst h₂; exact hshort _ (by decide) (by decide) rfl
  by_cases h₃ : c = '\n'
  · subst h₃; exact hshort _ (by decide) (by decide) rfl
  by_cases h₄ : c = '\r'
  · subst h₄; exact hshort _ (by decide) (by decide) rfl
  by_cases h₅ : c = '\t'
  · subst h₅; exact hshort _ (by decide) (by decide) rfl
  by_cases h₆ : c = '\x08'
  · subst h₆; exact hshort _ (by decide) (by decide) rfl
  by_cases h₇ : c = '\x0c'
  · subst h₇; exact hshort _ (by decide) (by decide) rfl
  simp only [h₁, h₂, h₃, h₄, h₅, h₆, h₇, if_false, Bool.or_eq_true, Bool.and_eq_true, decide_eq_true_eq]
  by_cases h₈ : c.toNat < 0x20 ∨ ascii = true ∧ 0x7f ≤ c.toNat
  · have hp : pieces ascii c = piecesOfCode c := by
      rcases h₈ with h | h
      · rw [hone (by omega), piecesOfCode, if_pos (by omega)]
      · rw [pieces, if_pos h.1]
    rw [if_pos h₈, hp]
    exact readText_code c cs
  · have hp : pieces ascii c = [.char c] := by
      cases ascii
      · rfl
      · have h₉ : c.toNat < 0x7f := Nat.lt_of_not_le fun h => h₈ (.inr ⟨rfl, h⟩)
        exact hone (by omega)
    rw [if_neg h₈, hp]
    exact readText_self h₁ h₂ (fun h => h₈ (.inl h)) cs

theorem readText_escapes (ascii : Bool) (cs rest : List Char) :
    readText (cs.flatMap (escape ascii) ++ '"' :: rest) = some (cs.flatMap (pieces ascii), rest) := by
  induction cs with
  | nil => rfl
  | cons c cs ih => rw [List.flatMap_cons, List.append_assoc, readText_escape, ih]; rfl

/-- The pieces of a character make the character again. -/
theorem join?_pieces (ascii : Bool) (c : Char) (ps : List Piece) :
    join? (pieces ascii c ++ ps) = (join? ps).map (c :: ·) := by
  unfold pieces piecesOfCode
  by_cases h : ascii = true ∧ ¬ c.toNat < 0x10000
  · have hc := toNat_ranges c
    have hpair : (isHigh (0xd800 + (c.toNat - 0x10000) / 1024) &&
        isLow (0xdc00 + (c.toNat - 0x10000) % 1024)) = true := by
      simp only [isHigh, isLow, Bool.and_eq_true, decide_eq_true_eq]
      omega
    have hn : 0x10000 + (0xd800 + (c.toNat - 0x10000) / 1024 - 0xd800) * 1024 +
        (0xdc00 + (c.toNat - 0x10000) % 1024 - 0xdc00) = c.toNat := by omega
    rw [if_pos h.1, if_neg h.2, List.cons_append, List.cons_append, List.nil_append, join?, if_pos hpair,
      pairChar, hn, Char.ofNat_toNat]
  · have hp : (if ascii = true then if c.toNat < 0x10000 then [.char c]
        else [.half (0xd800 + (c.toNat - 0x10000) / 1024), .half (0xdc00 + (c.toNat - 0x10000) % 1024)]
        else [Piece.char c]) = [.char c] := by
      by_cases ha : ascii = true
      · rw [if_pos ha, if_pos (Decidable.not_not.1 fun hn => h ⟨ha, hn⟩)]
      · rw [if_neg ha]
    rw [hp]
    rfl

theorem join?_flatMap_pieces (ascii : Bool) (cs : List Char) : join? (cs.flatMap (pieces ascii)) = some cs := by
  induction cs with
  | nil => rfl
  | cons c cs ih => rw [List.flatMap_cons, join?_pieces, ih]; rfl

theorem textValue?_pieces (h : Halves) (ascii : Bool) (s : String) :
    textValue? h (s.toList.flatMap (pieces ascii)) = some (.text s) := by
  simp only [textValue?, join?_flatMap_pieces, String.ofList_toList]

/-- A text as it is written, and what is read after its opening quote. -/
theorem readText_text (ascii : Bool) (s : String) (rest : List Char) :
    ∃ cs, text ascii s ++ rest = '"' :: cs ∧ readText cs = some (s.toList.flatMap (pieces ascii), rest) := by
  refine ⟨s.toList.flatMap (escape ascii) ++ '"' :: rest, by simp [text], readText_escapes _ _ _⟩

/-! ## Values -/

/-- The values of records and snapshots. -/
inductive Plain : Value → Prop where
  | null : Plain .null
  | bool (b : Bool) : Plain (.bool b)
  | text (s : String) : Plain (.text s)
  | list {vs : List Value} (hv : ∀ v ∈ vs, Plain v) : Plain (.list vs)
  | object {fs : List (String × Value)} (names : (fs.map (·.1)).Nodup) (hv : ∀ f ∈ fs, Plain f.2) :
      Plain (Value.object fs)

/-- The first character is neither blank nor the end of a list. -/
def Starts (cs : List Char) : Prop :=
  ∃ c r, cs = c :: r ∧ isSpace c = false ∧ c ≠ ']'

theorem Plain.starts {v : Value} (h : Plain v) (l : Layout) (depth : Nat) : Starts (chars l depth v) := by
  cases h with
  | null => exact ⟨'n', _, rfl, by decide, by decide⟩
  | bool b =>
    cases b with
    | true => exact ⟨'t', _, rfl, by decide, by decide⟩
    | false => exact ⟨'f', _, rfl, by decide, by decide⟩
  | text s => exact ⟨'"', _, by simp only [chars, Json.text, List.cons_append]; rfl, by decide, by decide⟩
  | @list vs hv =>
    cases vs with
    | nil => exact ⟨'[', _, chars_nil l depth, by decide, by decide⟩
    | cons v vs => exact ⟨'[', _, by simp only [chars, List.cons_append]; rfl, by decide, by decide⟩
  | @object fs names hv =>
    cases fs with
    | nil => exact ⟨'\x7b', _, by rw [Value.object, List.map_nil, chars], by decide, by decide⟩
    | cons f fs =>
      exact ⟨'\x7b', _, by simp only [Value.object, List.map_cons, chars, List.cons_append]; rfl, by decide, by decide⟩

theorem skip_cons {c : Char} (hc : isSpace c = false) (r : List Char) : skip (c :: r) = c :: r := by
  simp [skip, hc]

theorem skip_newline (l : Layout) (depth : Nat) {c : Char} (hc : isSpace c = false) (r : List Char) :
    skip (newline l depth ++ c :: r) = c :: r := by
  unfold newline
  split
  · have hn : ∀ n, skip (List.replicate n ' ' ++ c :: r) = c :: r := fun n => by
      induction n with
      | zero => exact skip_cons hc r
      | succ n ih => simpa [skip, List.replicate_succ, isSpace] using ih
    simpa [skip, isSpace] using hn (2 * depth)
  · exact skip_cons hc r

/-- Wherever a value stands, it is read and nothing after it. -/
def ReadsBack (h : Halves) (l : Layout) (v : Value) : Prop :=
  ∀ depth fuel rest, 2 * (chars l depth v).length ≤ fuel →
    readValue h fuel (chars l depth v ++ rest) = some (v, rest)

section Back

variable {h : Halves} {l : Layout}

/-- Blanks before a value are skipped. -/
theorem Plain.skip_newline {v : Value} (hv : Plain v) (n depth : Nat) (r : List Char) :
    skip (newline l n ++ (chars l depth v ++ r)) = chars l depth v ++ r := by
  obtain ⟨c, cs, hc, hs, -⟩ := hv.starts l depth
  rw [hc]
  exact Json.skip_newline l n hs _

theorem readsBack_null : ReadsBack h l .null := by
  intro depth fuel rest hf
  cases fuel with
  | zero => simp [chars] at hf
  | succ fuel => rfl

theorem readsBack_bool (b : Bool) : ReadsBack h l (.bool b) := by
  intro depth fuel rest hf
  cases fuel with
  | zero => cases b <;> simp [chars] at hf
  | succ fuel => cases b <;> rfl

theorem readsBack_text (s : String) : ReadsBack h l (.text s) := by
  intro depth fuel rest hf
  cases fuel with
  | zero => simp [chars, Json.text] at hf
  | succ fuel =>
    obtain ⟨cs, hcs, hr⟩ := readText_text l.ascii s rest
    rw [chars, hcs, readValue]
    simp [hr, textValue?_pieces]

/-- The items of a list, from one on. -/
theorem readItems_chars (v : Value) (vs : List Value) (hp : ∀ w ∈ v :: vs, Plain w)
    (hb : ∀ w ∈ v :: vs, ReadsBack h l w) (depth d fuel : Nat) (rest : List Char)
    (hf : 2 * (chars l depth v ++ itemChars l depth vs).length + 1 ≤ fuel) :
    readItems h fuel (chars l depth v ++ (itemChars l depth vs ++ (newline l d ++ ']' :: rest))) =
      some (v :: vs, rest) := by
  induction vs generalizing v fuel with
  | nil =>
    obtain ⟨fuel, rfl⟩ : ∃ n, fuel = n + 1 := ⟨fuel - 1, by omega⟩
    simp only [itemChars, List.append_nil] at hf
    rw [readItems, hb v (by simp) depth fuel _ (by omega), itemChars, List.nil_append]
    simp [Json.skip_newline l d (show isSpace ']' = false by decide)]
  | cons w vs ih =>
    obtain ⟨fuel, rfl⟩ : ∃ n, fuel = n + 1 := ⟨fuel - 1, by omega⟩
    simp only [itemChars, List.cons_append, List.length_append, List.length_cons] at hf
    have hi := ih w (fun x hx => hp x (List.mem_cons_of_mem _ hx)) (fun x hx => hb x (List.mem_cons_of_mem _ hx))
      fuel (by rw [List.length_append]; omega)
    rw [readItems, hb v (by simp) depth fuel _ (by omega), itemChars]
    simp [skip_cons (show isSpace ',' = false by decide), (hp w (by simp)).skip_newline, hi]

theorem readsBack_list {vs : List Value} (hp : ∀ v ∈ vs, Plain v) (hb : ∀ v ∈ vs, ReadsBack h l v) :
    ReadsBack h l (.list vs) := by
  intro depth fuel rest hf
  cases fuel with
  | zero => cases vs <;> simp [chars] at hf
  | succ fuel =>
    cases vs with
    | nil =>
      simp only [chars_nil, List.cons_append, List.nil_append]
      rw [readValue, skip_cons (by decide)]
      rfl
    | cons v vs =>
      simp only [chars, List.length_append, List.length_cons, List.length_nil] at hf
      have hi := readItems_chars v vs hp hb (depth + 1) depth fuel rest (by rw [List.length_append]; omega)
      have hs := (hp v (by simp)).skip_newline (l := l) (depth + 1) (depth + 1)
        (itemChars l (depth + 1) vs ++ (newline l depth ++ ']' :: rest))
      simp only [chars, List.cons_append, List.append_assoc, List.nil_append]
      rw [readValue, hs]
      split
      · rename_i r hr
        obtain ⟨c, cs, hc, -, hne⟩ := (hp v (by simp)).starts l (depth + 1)
        rw [hc] at hr
        exact absurd (List.cons.inj hr).1 hne
      · simp [hi]

/-- The name of a member, up to the value. -/
theorem readText_keyChars (l : Layout) (k : String) (rest : List Char) :
    ∃ cs gap, keyChars l (.text k) ++ rest = '"' :: cs ∧
      readText cs = some (k.toList.flatMap (pieces l.ascii), ':' :: (gap ++ rest)) ∧
      ∀ c r, isSpace c = false → skip (gap ++ c :: r) = c :: r := by
  rw [keyChars]
  by_cases hs : l.spread = true
  · obtain ⟨cs, hcs, hr⟩ := readText_text l.ascii k ([':', ' '] ++ rest)
    refine ⟨cs, [' '], by rw [if_pos hs, List.append_assoc, hcs], hr, fun c r hc => ?_⟩
    exact skip_cons hc r
  · obtain ⟨cs, hcs, hr⟩ := readText_text l.ascii k ([':'] ++ rest)
    exact ⟨cs, [], by rw [if_neg hs, List.append_assoc, hcs], hr, fun c r hc => skip_cons hc r⟩

/-- Blanks before a member are skipped. -/
theorem skip_newline_keyChars (l : Layout) (n : Nat) (k : String) (rest : List Char) :
    skip (newline l n ++ (keyChars l (.text k) ++ rest)) = keyChars l (.text k) ++ rest := by
  obtain ⟨cs, gap, hcs, -, -⟩ := readText_keyChars l k rest
  rw [hcs]
  exact Json.skip_newline l n (by decide) cs

/-- A name that is not there yet goes to the end. -/
theorem put_of_not_mem {fs : List (String × Value)} {k : String} (hk : k ∉ fs.map (·.1)) (v : Value) :
    put (.text k) v (fs.map fun f => (.text f.1, f.2)) = (fs ++ [(k, v)]).map fun f => (.text f.1, f.2) := by
  induction fs with
  | nil => rfl
  | cons f fs ih =>
    simp only [List.map_cons, List.mem_cons, not_or] at hk
    simp [put, hk.1, ih hk.2]

theorem not_mem_of_nodup {fs fs' : List (String × Value)} {k : String} {v : Value}
    (hn : ((fs ++ (k, v) :: fs').map (·.1)).Nodup) : k ∉ fs.map (·.1) := by
  rw [List.map_append, List.nodup_append] at hn
  exact fun hm => hn.2.2 k hm k (by simp) rfl

/-- A member of an object is put to those that were read before. -/
theorem readMembers_member (k : String) {v : Value} (hp : Plain v) (hb : ReadsBack h l v)
    (acc : List (Value × Value)) (depth fuel : Nat) (hf : 2 * (chars l depth v).length ≤ fuel) (rest : List Char) :
    readMembers h (fuel + 1) acc (keyChars l (.text k) ++ (chars l depth v ++ rest)) =
      match skip rest with
      | ',' :: r => readMembers h fuel (put (.text k) v acc) (skip r)
      | '\x7d' :: r => some (put (.text k) v acc, r)
      | _ => none := by
  obtain ⟨cs, gap, hcs, hr, hg⟩ := readText_keyChars l k (chars l depth v ++ rest)
  obtain ⟨c, r, hc, hs, -⟩ := hp.starts l depth
  have hgap : skip (gap ++ (chars l depth v ++ rest)) = chars l depth v ++ rest := by
    rw [hc]
    exact hg c (r ++ rest) hs
  rw [hcs, readMembers, hr]
  have hcolon : isSpace ':' = false := by decide
  simp only [Option.bind_eq_bind, Option.bind_some, textValue?_pieces, skip_cons hcolon, hgap,
    hb depth fuel rest hf]
  rfl

/-- The members of an object, from one on, after those that were read before. -/
theorem readMembers_chars (k : String) (v : Value) (fs acc : List (String × Value))
    (hn : ((acc ++ (k, v) :: fs).map (·.1)).Nodup) (hp : ∀ f ∈ (k, v) :: fs, Plain f.2)
    (hb : ∀ f ∈ (k, v) :: fs, ReadsBack h l f.2) (depth d fuel : Nat) (rest : List Char)
    (hf : 2 * (chars l depth v ++ entryChars l depth (fs.map fun f => (.text f.1, f.2))).length + 1 ≤ fuel) :
    readMembers h fuel (acc.map fun f => (.text f.1, f.2)) (keyChars l (.text k) ++ (chars l depth v ++
        (entryChars l depth (fs.map fun f => (.text f.1, f.2)) ++ (newline l d ++ '\x7d' :: rest)))) =
      some ((acc ++ (k, v) :: fs).map fun f => (.text f.1, f.2), rest) := by
  induction fs generalizing k v acc fuel with
  | nil =>
    obtain ⟨fuel, rfl⟩ : ∃ n, fuel = n + 1 := ⟨fuel - 1, by omega⟩
    have hv : Plain v := hp (k, v) (by simp)
    have hbv : ReadsBack h l v := hb (k, v) (by simp)
    have hk : k ∉ acc.map (·.1) := not_mem_of_nodup hn
    simp only [List.map_nil, entryChars, List.append_nil, List.nil_append] at hf ⊢
    rw [readMembers_member k hv hbv _ depth fuel (by omega), Json.skip_newline l d (by decide),
      put_of_not_mem hk]
    rfl
  | cons f fs ih =>
    obtain ⟨fuel, rfl⟩ : ∃ n, fuel = n + 1 := ⟨fuel - 1, by omega⟩
    have hv : Plain v := hp (k, v) (by simp)
    have hbv : ReadsBack h l v := hb (k, v) (by simp)
    have hk : k ∉ acc.map (·.1) := not_mem_of_nodup hn
    simp only [List.map_cons, entryChars, List.cons_append, List.append_assoc, List.length_append,
      List.length_cons] at hf ⊢
    have hi := ih f.1 f.2 (acc ++ [(k, v)]) (by simpa using hn) (fun x hx => hp x (List.mem_cons_of_mem _ hx))
      (fun x hx => hb x (List.mem_cons_of_mem _ hx)) fuel (by rw [List.length_append]; omega)
    rw [readMembers_member k hv hbv _ depth fuel (by omega), skip_cons (by decide), put_of_not_mem hk]
    simpa [skip_newline_keyChars] using hi

theorem readsBack_object {fs : List (String × Value)} (hn : (fs.map (·.1)).Nodup)
    (hp : ∀ f ∈ fs, Plain f.2) (hb : ∀ f ∈ fs, ReadsBack h l f.2) : ReadsBack h l (Value.object fs) := by
  intro depth fuel rest hf
  cases fuel with
  | zero => cases fs <;> simp [Value.object, chars] at hf
  | succ fuel =>
    cases fs with
    | nil =>
      simp only [Value.object, List.map_nil, chars, List.cons_append, List.nil_append]
      rw [readValue, skip_cons (by decide)]
      rfl
    | cons f fs =>
      simp only [Value.object, List.map_cons, chars, List.length_append, List.length_cons, List.length_nil] at hf
      have hi := readMembers_chars f.1 f.2 fs [] hn hp hb (depth + 1) depth fuel rest
        (by rw [List.length_append]; omega)
      simp only [Value.object, List.map_cons, chars, List.cons_append, List.append_assoc, List.nil_append]
      obtain ⟨cs, gap, hcs, -, -⟩ := readText_keyChars l f.1 (chars l (depth + 1) f.2 ++
        (entryChars l (depth + 1) (fs.map fun f => (.text f.1, f.2)) ++ (newline l depth ++ '\x7d' :: rest)))
      rw [readValue, skip_newline_keyChars, hcs]
      rw [hcs] at hi
      simp only [List.map_nil, List.nil_append] at hi
      simp [hi]

/-- A value is read wherever it stands. The induction is on how it is plain: on its items and its members. -/
theorem Plain.readsBack {v : Value} (hv : Plain v) : ReadsBack h l v := by
  induction hv with
  | null => exact readsBack_null
  | bool b => exact readsBack_bool b
  | text s => exact readsBack_text s
  | list hv ih => exact readsBack_list hv ih
  | object names hv ih => exact readsBack_object names hv ih

end Back

/-- What is written reads back, also with blanks after it. -/
theorem read_write_append (h : Halves) (l : Layout) {v : Value} (hv : Plain v) (after : String)
    (ha : skip after.toList = []) : read h (write l v ++ after) = some v := by
  obtain ⟨c, cs, hc, hs, -⟩ := hv.starts l 0
  have hk : skip (chars l 0 v ++ after.toList) = chars l 0 v ++ after.toList := by
    rw [hc]
    exact skip_cons hs (cs ++ after.toList)
  have hr := hv.readsBack (h := h) (l := l) 0 (2 * (chars l 0 v ++ after.toList).length + 2) after.toList
    (by rw [List.length_append]; omega)
  simp only [read, write, String.toList_append, String.toList_ofList, hk, hr, ha]
  rfl

/-- **What is written reads back.** -/
theorem read_write (h : Halves) (l : Layout) {v : Value} (hv : Plain v) :
    read h (write l v) = some v := by
  have hr := read_write_append h l hv "" rfl
  rwa [String.append_empty] at hr

end ExemptZones.Json

namespace ExemptZones.Zone

theorem plain_toValue (z : Zone) : Json.Plain z.toValue := by
  refine .object (by simp [Flags.fields]) fun f hf => ?_
  simp only [Flags.fields, List.mem_cons, List.not_mem_nil, or_false] at hf
  rcases hf with rfl | rfl | rfl | rfl
  · exact .text _
  · exact .bool _
  · exact .bool _
  · exact .bool _

theorem decode_encode (z : Zone) : decode z.encode = .ok z := by
  rw [decode, encode, Utf8.decode?_encode]
  show ofJson z.toJson = .ok z
  rw [ofJson, toJson, Json.read_write .refused _ z.plain_toValue]
  exact ofValue_toValue z

theorem encode_injective {z z' : Zone} (h : z.encode = z'.encode) : z = z' := by
  have hd := decode_encode z
  rw [h, decode_encode] at hd
  exact (Except.ok.inj hd).symm

end ExemptZones.Zone
