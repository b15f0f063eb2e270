import ExemptZones.Proofs.AddressText
import ExemptZones.Proofs.StateFiles
import ExemptZones.Proofs.YamlWords

/-
Plain lists of addresses: an address a line, between blank lines and comments. Such a list is read as a document
before it is cut into lines. As a document its addresses are the words of one text, and a comment between two of them
ends that text, though no line minds it.

`addressLines_chars`: the lines alone give exactly the addresses.
`layout_chars`: as a document the list is made of words and comments.
`plain_list_addresses`: it is read, as exactly its addresses, unless a comment stands between two of them.
-/

namespace ExemptZones.PlainList

/-! ## The lines of a plain list -/

/-- A printable character of ASCII. -/
def IsPrintable (c : Char) : Prop :=
  0x20 ≤ c.toNat ∧ c.toNat ≤ 0x7e

instance : DecidablePred IsPrintable := fun c =>
  inferInstanceAs (Decidable (0x20 ≤ c.toNat ∧ c.toNat ≤ 0x7e))

def Printable (cs : List Char) : Prop :=
  ∀ c ∈ cs, IsPrintable c

instance (cs : List Char) : Decidable (Printable cs) :=
  List.decidableBAll IsPrintable cs

/-- What stands behind a `#`. -/
def Remark : Type :=
  { cs : List Char // Printable cs }

/-- A text that is accepted as an address where nothing else is configured. -/
def Accepted : Type :=
  { a : String // ∃ raw, Address.validate a defaultAddressPrefix = .ok raw }

/-- What stands behind the address of a line. -/
inductive Tail where
  | blanks (n : Nat)
  /-- A comment, after a blank and `n` more. -/
  | comment (n : Nat) (remark : Remark)

inductive Line where
  | blank (n : Nat)
  | comment (indent : Nat) (remark : Remark)
  | entry (indent : Nat) (address : Accepted) (tail : Tail)

def blanks (n : Nat) : List Char :=
  List.replicate n ' '

def Tail.chars : Tail → List Char
  | .blanks n => PlainList.blanks n
  | .comment n r => PlainList.blanks (n + 1) ++ '#' :: r.val

def Line.chars : Line → List Char
  | .blank n => blanks n
  | .comment i r => blanks i ++ '#' :: r.val
  | .entry i a t => blanks i ++ (a.val.toList ++ t.chars)

def Line.address? : Line → Option Text
  | .entry _ a _ => some a.val
  | _ => none

/-- The text of a list. The last line is ended by a line break if a blank line of no blanks follows it. -/
def chars : List Line → List Char
  | [] => []
  | [l] => l.chars
  | l :: m :: ls => l.chars ++ '\n' :: chars (m :: ls)

def Tail.parts : Tail → List Yaml.Chunk
  | .blanks _ => []
  | .comment _ _ => [.comment]

/-- The address and the comment of a line, as far as it has them. -/
def Line.parts : Line → List Yaml.Chunk
  | .blank _ => []
  | .comment _ _ => [.comment]
  | .entry _ _ t => .word :: t.parts

/-- A comment stands between two addresses. -/
def Interrupted (ls : List Line) : Prop :=
  Yaml.Interrupted (ls.flatMap Line.parts)

instance (ls : List Line) : Decidable (Interrupted ls) :=
  inferInstanceAs (Decidable (Yaml.Interrupted _))

/-! ## The addresses as words -/

section Words

variable {cs : List Char}

theorem parts_cons {c : Char} (hc : c ≠ ':') (cs : List Char) :
    ∃ p ps, Yaml.parts (c :: cs) = (c :: p) :: ps := by
  rw [Yaml.parts]
  cases Yaml.parts cs with
  | nil => exact ⟨[], [], rfl⟩
  | cons p ps => exact ⟨p, ps, if_neg hc⟩

theorem isInteger_t (cs : List Char) : Yaml.isInteger ('t' :: cs) = false := by
  obtain ⟨p, ps, h⟩ := parts_cons (show 't' ≠ ':' by decide) cs
  simp [Yaml.isInteger, Yaml.dropSign, h, Yaml.isDigits]

theorem isFloat_t (cs : List Char) : Yaml.isFloat ('t' :: cs) = false := by
  have hpoint : Yaml.splitPoint ('t' :: cs) = (Yaml.splitPoint cs).map fun q => ('t' :: q.1, q.2) := by
    simp [Yaml.splitPoint]
  rw [Yaml.isFloat, hpoint]
  cases Yaml.splitPoint cs with
  | none => simp [Yaml.dropSign, ← String.toList_inj]
  | some q =>
    obtain ⟨p, ps, h⟩ := parts_cons (show 't' ≠ ':' by decide) q.1
    cases ps <;> simp [Yaml.dropSign, ← String.toList_inj, h, Yaml.isDigits]

/-- A text that begins like an address spells nothing but itself. -/
theorem ofText_te {t : String} (h : t.toList = 't' :: 'e' :: cs) : Yaml.Kind.ofText t = .text := by
  have hword : ∀ w : String, w.toList.take 2 ≠ ['t', 'e'] → t ≠ w := by
    rintro _ hw rfl
    exact hw (by simp [h])
  have hlist : ∀ ws : List String, (∀ w ∈ ws, w.toList.take 2 ≠ ['t', 'e']) → t ∉ ws := fun ws hws hm =>
    hword t (hws t hm) rfl
  have hflag : t ∉ Yaml.flagWords := hlist _ (by decide)
  have hnull : t ∉ Yaml.nullWords := hlist _ (by decide)
  have hdate : Yaml.isDate ('t' :: 'e' :: cs) = false := by
    have hyear : Yaml.digits? 4 ('t' :: 'e' :: cs) = none := by simp [Yaml.digits?]
    rw [Yaml.isDate, Yaml.stamp?, hyear]
    rfl
  simp [Yaml.Kind.ofText, h, hflag, hnull, hdate, isFloat_t, isInteger_t, hword]

theorem isAlphanum_symbol : ∀ s : Address.Symbol, s.toChar.isAlphanum = true := by
  decide

theorem isPlain_of_mem (a : Accepted) : ∀ c ∈ a.val.toList, Address.IsPlain c := by
  obtain ⟨raw, hraw⟩ := a.property
  obtain ⟨hpart, -, ha⟩ := Address.validate_eq_ok_iff.1 hraw
  rw [Text.plain.inj ha, Address.encode_eq, String.toList_ofList]
  exact Address.isPlain_of_mem_written hpart

/-- An accepted address is a word. -/
theorem isWord (a : Accepted) : Yaml.IsWord a.val.toList := by
  obtain ⟨raw, hraw⟩ := a.property
  have ha : a.val.toList = Address.written defaultAddressPrefix (Address.Regroup.ofBytes raw) := by
    rw [Text.plain.inj (Address.eq_encode hraw), Address.encode_eq, String.toList_ofList]
  have hprefix : defaultAddressPrefix.toList = ['t', 'e', 'r', 'r', 'a'] := by simp [defaultAddressPrefix]
  rw [Address.written, hprefix] at ha
  obtain ⟨cs, hcs⟩ : ∃ cs, a.val.toList = 't' :: 'e' :: cs := ⟨_, ha⟩
  refine ⟨by simp [hcs], fun c hc => ?_, fun r => ?_⟩
  · rw [ha] at hc
    rcases List.mem_append.1 hc with hc | hc
    · exact List.all_eq_true.1 (show ['t', 'e', 'r', 'r', 'a'].all Char.isAlphanum = true by decide) c hc
    · rcases List.mem_cons.1 hc with rfl | hc
      · decide
      · obtain ⟨s, -, rfl⟩ := List.mem_map.1 hc
        exact isAlphanum_symbol s
  · rw [hcs]
    exact ofText_te String.toList_ofList

end Words

/-! ## What stands in a line -/

section Characters

variable {c : Char}

theorem IsPrintable.isOrdinary (h : IsPrintable c) : Yaml.Writer.isOrdinary c = true := by
  simpa [Yaml.Writer.isOrdinary] using .inr h

theorem IsPrintable.isBreak (h : IsPrintable c) : Yaml.isBreak c = false := by
  refine Yaml.isBreak_of_isOrdinary h.isOrdinary ?_
  rintro rfl
  exact absurd h.1 (by decide)

theorem IsPrintable.endsLine (h : IsPrintable c) : Text.endsLine c = false := by
  obtain ⟨hlow, hhigh⟩ := h
  simp [Text.endsLine]
  omega

theorem IsPrintable.of_isPlain (h : Address.IsPlain c) : IsPrintable c :=
  ⟨Nat.le_of_succ_le h.1, h.2.1⟩

theorem printable_blanks (n : Nat) : Printable (blanks n) := fun c hc => by
  rw [List.eq_of_mem_replicate hc]
  exact ⟨by decide, by decide⟩

theorem printable_comment (n : Nat) (r : Remark) : Printable (blanks n ++ '#' :: r.val) := by
  rw [Printable, List.forall_mem_append, List.forall_mem_cons]
  exact ⟨printable_blanks n, ⟨by decide, by decide⟩, r.property⟩

theorem printable_line (l : Line) : Printable l.chars := by
  cases l with
  | blank n => exact printable_blanks n
  | comment i r => exact printable_comment i r
  | entry i a t =>
    rw [Printable, Line.chars, List.forall_mem_append, List.forall_mem_append]
    refine ⟨printable_blanks i, fun c hc => IsPrintable.of_isPlain (isPlain_of_mem a c hc), ?_⟩
    cases t with
    | blanks n => exact printable_blanks n
    | comment n r => exact printable_comment (n + 1) r

end Characters

/-! ## The lines -/

section Lines

variable {cs : List Char} {c : Char}

/-- The address in a line: what stands before a `#`, unless it is blank. -/
def addressIn (l : List Char) : Option Text :=
  let a := Text.trimBy Text.isBlank (l.takeWhile (· ≠ '#'))
  if a.isEmpty then none else some (.plain (String.ofList a))

theorem addressLines_eq (cs : List Char) : Loading.addressLines cs = (Text.splitLines cs).filterMap addressIn :=
  rfl

theorem splitLines_char (hc : Text.endsLine c = false) (cs : List Char) :
    Text.splitLines (c :: cs) =
      match Text.splitLines cs with
      | [] => [[c]]
      | l :: ls => (c :: l) :: ls := by
  rw [Text.splitLines]
  · rw [hc]
    rfl
  · rintro _ rfl -
    cases hc

theorem splitLines_newline (h : ∀ c ∈ cs, Text.endsLine c = false) (rest : List Char) :
    Text.splitLines (cs ++ '\n' :: rest) = cs :: Text.splitLines rest := by
  induction cs with
  | nil => rfl
  | cons c cs ih =>
    obtain ⟨hc, hcs⟩ := List.forall_mem_cons.1 h
    rw [List.cons_append, splitLines_char hc, ih hcs]

/-- A last line without anything in it is none. -/
theorem splitLines_last (h : ∀ c ∈ cs, Text.endsLine c = false) :
    Text.splitLines cs = if cs.isEmpty then [] else [cs] := by
  induction cs with
  | nil => rfl
  | cons c cs ih =>
    obtain ⟨hc, hcs⟩ := List.forall_mem_cons.1 h
    rw [splitLines_char hc, ih hcs]
    cases cs <;> rfl

theorem dropWhile_blanks (n : Nat) (cs : List Char) :
    (blanks n ++ cs).dropWhile Text.isBlank = cs.dropWhile Text.isBlank :=
  List.dropWhile_append_of_pos fun c hc => by
    rw [List.eq_of_mem_replicate hc]
    rfl

/-- Blanks around a word are trimmed, and those around nothing too. -/
theorem trimBy_blanks (i n : Nat) (h : ∀ c ∈ cs, Text.isBlank c = false) :
    Text.trimBy Text.isBlank (blanks i ++ (cs ++ blanks n)) = cs := by
  rw [Text.trimBy, dropWhile_blanks]
  cases cs with
  | nil =>
    have hnone := dropWhile_blanks n []
    rw [List.append_nil] at hnone
    rw [List.nil_append, hnone]
    rfl
  | cons c cs =>
    have hrev : (blanks n).reverse = blanks n := List.reverse_replicate
    have hlast : (c :: cs).reverse.dropWhile Text.isBlank = (c :: cs).reverse :=
      List.dropWhile_eq_self_iff.2 fun hl => by
        rw [h _ (List.mem_reverse.1 (List.getElem_mem hl))]
        decide
    rw [List.cons_append, List.dropWhile_cons_of_neg (by simp [h]), ← List.cons_append, List.reverse_append, hrev,
      dropWhile_blanks, hlast, List.reverse_reverse]

theorem decide_ne_mark (h : '#' ∉ cs) : ∀ c ∈ cs, decide (c ≠ '#') = true := fun _ hc =>
  decide_eq_true fun he => h (he ▸ hc)

/-- What stands before the comment of a line. -/
theorem takeWhile_mark (h : '#' ∉ cs) (r : List Char) : (cs ++ '#' :: r).takeWhile (· ≠ '#') = cs := by
  rw [List.takeWhile_append_of_pos (decide_ne_mark h)]
  simp

/-- In a line without a comment, that is everything. -/
theorem takeWhile_all (h : '#' ∉ cs) : cs.takeWhile (· ≠ '#') = cs :=
  List.takeWhile_eq_self_iff.2 (decide_ne_mark h)

theorem addressIn_of_takeWhile {l : List Char} {i n : Nat} (h : ∀ c ∈ cs, Text.isBlank c = false)
    (hl : l.takeWhile (· ≠ '#') = blanks i ++ (cs ++ blanks n)) :
    addressIn l = if cs.isEmpty then none else some (.plain (String.ofList cs)) := by
  simp only [addressIn, hl, trimBy_blanks i n h]

theorem addressIn_of_blanks {l : List Char} {i : Nat} (hl : l.takeWhile (· ≠ '#') = blanks i) :
    addressIn l = none := by
  have hempty : l.takeWhile (· ≠ '#') = blanks i ++ ([] ++ blanks 0) := by simpa [blanks] using hl
  exact addressIn_of_takeWhile (by simp) hempty

theorem isBlank_of_isPlain (h : Address.IsPlain c) : Text.isBlank c = false := by
  obtain ⟨hlow, hhigh, -⟩ := h
  simp [Text.isBlank, Text.isWhite]
  omega

theorem not_mem_blanks (n : Nat) : '#' ∉ blanks n := fun hm => absurd (List.eq_of_mem_replicate hm) (by decide)

theorem takeWhile_tail (h : '#' ∉ cs) (t : Tail) :
    ∃ n, (cs ++ t.chars).takeWhile (· ≠ '#') = cs ++ blanks n := by
  cases t with
  | blanks n => exact ⟨n, takeWhile_all (by simp [Tail.chars, h, not_mem_blanks])⟩
  | comment n r =>
    refine ⟨n + 1, ?_⟩
    rw [Tail.chars, ← List.append_assoc]
    exact takeWhile_mark (by simp [h, not_mem_blanks]) r.val

theorem addressIn_line (l : Line) : addressIn l.chars = l.address? := by
  cases l with
  | blank n => exact addressIn_of_blanks (takeWhile_all (not_mem_blanks n))
  | comment i r => exact addressIn_of_blanks (takeWhile_mark (not_mem_blanks i) r.val)
  | entry i a t =>
    have hw := isWord a
    have hblank : ∀ c ∈ a.val.toList, Text.isBlank c = false := fun c hc =>
      isBlank_of_isPlain (isPlain_of_mem a c hc)
    have hmark : '#' ∉ blanks i ++ a.val.toList := by
      rw [List.mem_append, not_or]
      exact ⟨not_mem_blanks i, fun hm => absurd (hw.alphanum _ hm) (by decide)⟩
    obtain ⟨n, hn⟩ := takeWhile_tail hmark t
    rw [List.append_assoc, List.append_assoc] at hn
    rw [Line.chars, addressIn_of_takeWhile hblank hn]
    simp [hw.ne_nil, Line.address?]

end Lines

/-- **The lines of a list give exactly its addresses**, in their order. -/
theorem addressLines_chars (ls : List Line) : Loading.addressLines (chars ls) = ls.filterMap Line.address? := by
  rw [addressLines_eq]
  fun_induction chars ls with
  | case1 => rfl
  | case2 l =>
    rw [splitLines_last fun c hc => (printable_line l c hc).endsLine, List.filterMap_cons, ← addressIn_line]
    cases l.chars with
    | nil => rfl
    | cons c cs => rfl
  | case3 l m ls ih =>
    rw [splitLines_newline fun c hc => (printable_line l c hc).endsLine, List.filterMap_cons, ih, addressIn_line]
    rfl

/-! ## The document -/

section Documents

variable {rest : List Char} {ps : List Yaml.Chunk}

theorem ordinary_chars (ls : List Line) : Yaml.Ordinary (chars ls) := by
  have hline : ∀ l : Line, Yaml.Ordinary l.chars := fun l c hc => (printable_line l c hc).isOrdinary
  fun_induction chars ls with
  | case1 => exact nofun
  | case2 l => exact hline l
  | case3 l m ls ih => exact (hline l).append (.cons (by decide) ih)

theorem head_blanks (n : Nat) (h : ∀ c ∈ rest.head?, c = ' ' ∨ c = '\n') :
    ∀ c ∈ (blanks n ++ rest).head?, c = ' ' ∨ c = '\n' := by
  cases n with
  | zero => exact h
  | succ n => exact fun c hc => .inl (Option.some.inj hc).symm

theorem layout_comment (n : Nat) (r : Remark) (h : Yaml.Layout rest ps) (hrest : ∀ c ∈ rest.head?, c = '\n') :
    Yaml.Layout (blanks n ++ '#' :: (r.val ++ rest)) (.comment :: ps) :=
  .comment (.blanks n) (fun c hc => (r.property c hc).isBreak) hrest h

theorem layout_tail (t : Tail) (h : Yaml.Layout rest ps) (hrest : ∀ c ∈ rest.head?, c = '\n') :
    Yaml.Layout (t.chars ++ rest) (t.parts ++ ps) := by
  cases t with
  | blanks n => exact h.append_space (.blanks n)
  | comment n r =>
    rw [Tail.chars, List.append_assoc]
    exact layout_comment (n + 1) r h hrest

theorem layout_line (l : Line) (h : Yaml.Layout rest ps) (hrest : ∀ c ∈ rest.head?, c = '\n') :
    Yaml.Layout (l.chars ++ rest) (l.parts ++ ps) := by
  cases l with
  | blank n => exact h.append_space (.blanks n)
  | comment i r =>
    rw [Line.chars, List.append_assoc]
    exact layout_comment i r h hrest
  | entry i a t =>
    rw [Line.chars, List.append_assoc, List.append_assoc]
    refine .word (.blanks i) (isWord a) ?_ (layout_tail t h hrest)
    cases t with
    | blanks n => exact head_blanks n fun c hc => .inr (hrest c hc)
    | comment n r => exact fun c hc => .inl (Option.some.inj hc).symm

/-- **A list is made of words and comments.** -/
theorem layout_chars (ls : List Line) : Yaml.Layout (chars ls) (ls.flatMap Line.parts) := by
  fun_induction chars ls with
  | case1 => exact .space nofun
  | case2 l =>
    have hl := layout_line l (.space (g := []) nofun) nofun
    simpa using hl
  | case3 l m ls ih =>
    have hbreak : Yaml.Layout (['\n'] ++ chars (m :: ls)) _ := ih.append_space (by simp [Yaml.Space])
    exact layout_line l hbreak (by simp)

end Documents

/-! ## The addresses of a file -/

section Files

variable {ls : List Line} {b : Bytes}

theorem addresses_interrupted (h : Loading.fileText b = .ok (String.ofList (chars ls))) (hi : Interrupted ls) :
    Loading.addresses b = .error Yaml.Fault.secondDocument.failure := by
  have hread := (Yaml.read_layout (ordinary_chars ls) (layout_chars ls)).1 hi
  simp only [Loading.addresses, h, hread, bind, Except.bind, Except.mapError]

theorem addresses_uninterrupted (h : Loading.fileText b = .ok (String.ofList (chars ls))) (hi : ¬ Interrupted ls) :
    Loading.addresses b = .ok (ls.filterMap Line.address?) := by
  obtain ⟨v, hread, hv⟩ := (Yaml.read_layout (ordinary_chars ls) (layout_chars ls)).2 hi
  have hlines : Loading.addressLines (String.ofList (chars ls)).toList = ls.filterMap Line.address? := by
    rw [String.toList_ofList, addressLines_chars]
  simp only [Loading.addresses, h, hread, bind, Except.bind, Except.mapError]
  -- What it is as a document does not matter any more, as long as it is no list.
  cases v with
  | list vs => exact absurd rfl (hv vs)
  | _ => exact congrArg Except.ok hlines

/-- **A plain list is read as exactly its addresses, or not at all.** The lines, however they are ended in the file, may
hold blanks, comments, and accepted addresses with blanks around them and comments behind them, in any order. If no
comment stands between two addresses, the addresses are read, all of them and nothing else, in the order of the file;
otherwise the next address after the comment counts as the beginning of a second document, and there is no result. -/
theorem plain_list_addresses (h : Loading.fileText b = .ok (String.ofList (chars ls))) :
    Loading.addresses b =
      if Interrupted ls then .error Yaml.Fault.secondDocument.failure else .ok (ls.filterMap Line.address?) := by
  by_cases hi : Interrupted ls
  · rw [if_pos hi, addresses_interrupted h hi]
  · rw [if_neg hi, addresses_uninterrupted h hi]

end Files

/-- Comments before the first address and behind the last one, in a file whose lines end in another way. -/
theorem plain_list_addresses_framed :
    let a : Accepted := ⟨"terra1qypqx0kxuu8", [1, 2, 3], by decide +kernel⟩
    let z : Accepted := ⟨"terra1qslr6n5t", [4], by decide +kernel⟩
    let ls : List Line :=
      [.comment 0 ⟨" old list".toList, by decide⟩, .entry 1 a (.blanks 2), .blank 1,
        .entry 0 z (.comment 1 ⟨" last".toList, by decide⟩), .comment 2 ⟨"end".toList, by decide⟩, .blank 0]
    let b := Utf8.encode "# old list\r\n terra1qypqx0kxuu8  \r\n \r\nterra1qslr6n5t  # last\n  #end\n"
    Loading.fileText b = .ok (String.ofList (chars ls)) ∧
      Loading.addresses b = .ok ["terra1qypqx0kxuu8", "terra1qslr6n5t"] := by
  intro a z ls b
  have h : Loading.fileText b = .ok (String.ofList (chars ls)) := by decide +kernel
  have hi : ¬ Interrupted ls := by decide
  exact ⟨h, (plain_list_addresses h).trans (if_neg hi)⟩

/-- A comment between two addresses. -/
theorem plain_list_interrupted :
    let a : Accepted := ⟨"terra1qypqx0kxuu8", [1, 2, 3], by decide +kernel⟩
    let z : Accepted := ⟨"terra1qslr6n5t", [4], by decide +kernel⟩
    let ls : List Line :=
      [.entry 0 a (.blanks 0), .comment 0 ⟨" c".toList, by decide⟩, .entry 0 z (.blanks 0), .blank 0]
    let b := Utf8.encode "terra1qypqx0kxuu8\n# c\nterra1qslr6n5t\n"
    Loading.fileText b = .ok (String.ofList (chars ls)) ∧
      Loading.addresses b ≠ .ok (ls.filterMap Line.address?) := by
  intro a z ls b
  have h : Loading.fileText b = .ok (String.ofList (chars ls)) := by decide +kernel
  refine ⟨h, ?_⟩
  rw [addresses_interrupted h (by decide)]
  nofun

end ExemptZones.PlainList
