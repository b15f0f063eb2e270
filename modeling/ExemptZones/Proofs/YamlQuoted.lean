import Mathlib.Algebra.Group.Nat.Defs
import ExemptZones.Proofs.YamlLines

/-
Texts between quotes, as they are written and as they are read. A reader takes one piece after another, and `unfold`
makes of the pieces what they stand for; so for each piece that is written it is said what becomes of it after the pause
before.

`single_singleFrom`: a text between single quotes reads back. A line broken at a blank is read as the blank, and of line
breaks one more is written than there are.
`double_doubleFrom`: so does any text between double quotes. A line is broken by a backslash, which is read as nothing.
-/

namespace ExemptZones.Yaml

open Writer

/-! ## Pieces and what they stand for -/

/-- A reader of pieces takes one from `x` where `cs` follows. -/
def Takes (f : List Mark → Pieces) (x : List Char) (piece : Piece) (cs : List Char) : Prop :=
  ∀ p, f (marks p (x ++ cs)) = (f (marks (p.behind x) cs)).push piece

/-- After a pause, a reader of pieces makes `out` of the text `cs` and stops before `rest`. -/
def Yields (f : List Mark → Pieces) (pause : Pause) (cs rest out : List Char) : Prop :=
  ∃ ps, (∀ p, f (marks p (cs ++ rest)) = .ok (ps, marks (p.behind cs) rest)) ∧
    unfold pause ps = out.map .char

section Yields

variable {f : List Mark → Pieces} {pause q : Pause} {piece : Piece} {x cs rest out : List Char}

/-- One piece, and what `unfold` makes of it. -/
theorem Yields.take {b : List Char} (ht : Takes f x piece (cs ++ rest))
    (hu : ∀ ps, unfold pause (piece :: ps) = b.map .char ++ unfold q ps) (hy : Yields f q cs rest out) :
    Yields f pause (x ++ cs) rest (b ++ out) := by
  obtain ⟨ps, hf, ho⟩ := hy
  refine ⟨piece :: ps, fun p => ?_, by rw [hu, ho, List.map_append]⟩
  rw [List.append_assoc, ht p, hf, Position.behind_append]
  rfl

/-- One piece that only changes the pause. -/
theorem Yields.pass (hy : Yields f q cs rest out) (ht : Takes f x piece (cs ++ rest))
    (hu : ∀ ps, unfold pause (piece :: ps) = unfold q ps) : Yields f pause (x ++ cs) rest out :=
  hy.take (b := []) ht hu

/-- A character that belongs to the content: the pause before it counts. -/
theorem Yields.char {c : Char} (ht : Takes f x (.char c) (cs ++ rest)) (hy : Yields f (.blanks []) cs rest out) :
    Yields f pause (x ++ cs) rest (pause.text ++ c :: out) := by
  have hu : ∀ ps, unfold pause (.char c :: ps) = (pause.text ++ [c]).map .char ++ unfold (.blanks []) ps := by
    intro ps
    simp [unfold, Pause.pieces]
  simpa using Yields.take ht hu hy

/-- A blank in a line may belong to the content. -/
theorem Yields.blank {bs : List Char} (ht : Takes f [' '] (.blank ' ') (cs ++ rest))
    (hy : Yields f (.blanks (bs ++ [' '])) cs rest out) : Yields f (.blanks bs) (' ' :: cs) rest out :=
  hy.pass ht fun _ => rfl

/-- Blanks after a line break do not belong to the content. -/
theorem Yields.skip {b : Option Char} {more : List Char} (ht : ∀ cs, Takes f [' '] (.blank ' ') cs) (n : Nat)
    (hy : Yields f (.breaks b more) cs rest out) :
    Yields f (.breaks b more) (List.replicate n ' ' ++ cs) rest out := by
  induction n with
  | zero => exact hy
  | succ n ih =>
    rw [List.replicate_succ, List.cons_append]
    exact ih.pass (x := [' ']) (ht _) fun _ => rfl

/-- What a scalar between quotes is read as. -/
theorem Yields.content (hy : Yields f (.blanks []) cs rest out) (p : Position) :
    (f (marks p (cs ++ rest))).map (fun (ps, rest) => (content ps, rest)) =
      .ok (.plain (String.ofList out), marks (p.behind cs) rest) := by
  obtain ⟨ps, hf, ho⟩ := hy
  simp [hf, Except.map, Yaml.content, ho]

end Yields

@[simp] theorem Pause.text_blanks (cs : List Char) : (Pause.blanks cs).text = cs := rfl

theorem Pause.text_breaks {more : List Char} (h : more ≠ []) : (Pause.breaks (some '\n') more).text = more := by
  simp [Pause.text, joinBreaks, h]

/-! ## Between single quotes -/

section Single

variable {c : Char} {cs rest : List Char}

theorem takes_single_char (hq : c ≠ '\'') (hg : isGap c = false) : Takes singlePieces [c] (.char c) cs := by
  intro p
  simp only [isGap, Bool.or_eq_false_iff, decide_eq_false_iff_not] at hg
  rw [List.cons_append, marks, singlePieces.eq_def]
  simp [hq, hg, Position.behind]

theorem takes_single_quote : Takes singlePieces ['\'', '\''] (.char '\'') cs := by
  intro p
  rw [List.cons_append, marks, singlePieces.eq_def]
  simp [marks, Position.behind]

theorem takes_single_blank : Takes singlePieces [' '] (.blank ' ') cs := by
  intro p
  rw [List.cons_append, marks, singlePieces.eq_def]
  simp [Position.behind]

theorem takes_single_break (h : ∀ p, isSeparator (marks p cs) = false) :
    Takes singlePieces ['\n'] (.lineBreak '\n') cs := by
  intro p
  rw [List.cons_append, marks, singlePieces.eq_def]
  simp [Position.behind, pushBreak, h, isBreak, breakChar]

theorem yields_single_close (hr : rest.head? ≠ some '\'') (pause : Pause) :
    Yields singlePieces pause ['\''] rest pause.text := by
  refine ⟨[], fun p => ?_, by cases pause <;> rfl⟩
  rw [List.cons_append, marks, singlePieces.eq_def, List.nil_append]
  cases rest with
  | nil => rfl
  | cons c rest =>
    have hc : c ≠ '\'' := fun h => hr (congrArg some h)
    simp [marks, hc, Position.behind]

/-- The pause that the reader is in where the writer is, if `cs` comes next. A blank that belongs to the content does
not follow a line break, nor the other way round. -/
inductive SinglePause (cs : List Char) : Before → Pause → Prop where
  | other : SinglePause cs .other (.blanks [])
  | blanks (bs : List Char) (h : bs = [] ∨ cs.head? ≠ some '\n') : SinglePause cs .barred (.blanks bs)
  | fold (hb : cs.head? ≠ some ' ') (hn : cs.head? ≠ some '\n') : SinglePause cs .barred (.breaks (some '\n') [])
  | lines {more : List Char} (hm : more ≠ []) (hb : cs.head? ≠ some ' ') :
      SinglePause cs .lineBreak (.breaks (some '\n') more)

/-- From wherever the writer may be, what it writes of `cs` is read as `cs`. -/
def SingleReads (indent : Nat) (rest cs : List Char) : Prop :=
  ∀ column before pause, SinglePause cs before pause →
    Yields singlePieces pause (singleFrom indent column before cs) rest (pause.text ++ cs)

theorem singleReads_nil {indent : Nat} (hr : rest.head? ≠ some '\'') : SingleReads indent rest [] := by
  intro column before pause _
  simpa [singleFrom] using yields_single_close hr pause

/-- A blank stands for itself, or the line is broken there and the break is read as the blank. -/
theorem singleReads_blank {indent : Nat} (hi : 0 < indent) (hn : cs.head? ≠ some '\n')
    (ih : SingleReads indent rest cs) : SingleReads indent rest (' ' :: cs) := by
  intro column before pause hs
  rw [singleFrom, if_pos rfl]
  split
  · next hbreak =>
    obtain ⟨hbar, -, hb⟩ := of_breaksAt hbreak
    cases hs with
    | blanks | fold => cases hbar
    | lines hm hb => exact absurd rfl hb
    | other =>
      have hy := (ih indent _ _ (.fold hb hn)).skip (fun _ => takes_single_blank) indent
      have hsep := fun p => isSeparator_blanks hi p (singleFrom indent indent .barred cs ++ rest)
      exact hy.pass (x := ['\n']) (takes_single_break (by simpa using hsep)) fun _ => rfl
  · cases hs with
    | fold hb => exact absurd rfl hb
    | lines hm hb => exact absurd rfl hb
    | other => exact (ih _ _ _ (.blanks _ (.inr hn))).blank takes_single_blank
    | blanks bs h =>
      have hy := (ih (column + 1) _ _ (.blanks (bs ++ [' ']) (.inr hn))).blank takes_single_blank
      simpa using hy

/-- What is written after a line break that belongs to the content. -/
def afterBreak (indent : Nat) (cs : List Char) : List Char :=
  (if cs.head? = some '\n' then [] else List.replicate indent ' ') ++ singleFrom indent indent .lineBreak cs

theorem isSeparator_afterBreak {indent : Nat} (hi : 0 < indent) (p : Position) (cs rest : List Char) :
    isSeparator (marks p (afterBreak indent cs ++ rest)) = false := by
  unfold afterBreak
  split
  · next h =>
    obtain ⟨r, rfl⟩ : ∃ r, cs = '\n' :: r := List.head?_eq_some_iff.1 h
    simpa [singleFrom] using isSeparator_cons (c := '\n') (by decide) (by decide)
  · rw [List.append_assoc]
    exact isSeparator_blanks hi p _

theorem yields_afterBreak {indent : Nat} (hb : cs.head? ≠ some ' ') (ih : SingleReads indent rest cs)
    {more : List Char} (hm : more ≠ []) :
    Yields singlePieces (.breaks (some '\n') more) (afterBreak indent cs) rest (more ++ cs) := by
  have hy := ih indent _ _ (.lines hm hb)
  rw [Pause.text_breaks hm] at hy
  unfold afterBreak
  split
  · exact hy
  · exact hy.skip (fun _ => takes_single_blank) indent

/-- One break more is written than there are, and all but the first are read. -/
theorem singleReads_break {indent : Nat} (hi : 0 < indent) (hb : cs.head? ≠ some ' ')
    (ih : SingleReads indent rest cs) : SingleReads indent rest ('\n' :: cs) := by
  have hsep := takes_single_break fun p => isSeparator_afterBreak hi p cs rest
  have hmore : ∀ more, Yields singlePieces (.breaks (some '\n') more) ('\n' :: afterBreak indent cs) rest
      (more ++ '\n' :: cs) := fun more => by
    have hy := yields_afterBreak hb ih (List.concat_ne_nil '\n' more)
    simpa using hy.pass hsep fun _ => rfl
  have hfirst : Yields singlePieces (.blanks []) ('\n' :: '\n' :: afterBreak indent cs) rest ('\n' :: cs) :=
    (hmore []).pass (x := ['\n'])
      (takes_single_break fun _ => isSeparator_cons (by decide) (by decide)) fun _ => rfl
  intro column before pause hs
  rw [singleFrom, if_neg (by decide), if_pos rfl, List.append_assoc]
  cases hs with
  | fold _ hn => exact absurd rfl hn
  | other => exact hfirst
  | blanks bs h =>
    obtain rfl : bs = [] := h.resolve_right fun h => h rfl
    exact hfirst
  | @lines more hm =>
    rw [Pause.text_breaks hm]
    exact hmore more

theorem singleReads_char {indent : Nat} (hb : c ≠ ' ') (hn : c ≠ '\n') (ho : isOrdinary c = true)
    (ih : SingleReads indent rest cs) : SingleReads indent rest (c :: cs) := by
  intro column before pause _
  rw [singleFrom, if_neg hb, if_neg hn]
  by_cases hq : c = '\''
  · subst hq
    exact (ih (column + 2) _ _ .other).char takes_single_quote
  · rw [if_neg hq]
    exact (ih (column + 1) _ _ .other).char (x := [c]) (takes_single_char hq (isGap_of_isOrdinary ho hn hb))

theorem singleReads {indent : Nat} (hi : 0 < indent) (hr : rest.head? ≠ some '\'') (ho : Ordinary cs)
    (hbn : hasPair (· = ' ') (· = '\n') cs = false) (hnb : hasPair (· = '\n') (· = ' ') cs = false) :
    SingleReads indent rest cs := by
  induction cs with
  | nil => exact singleReads_nil hr
  | cons c cs ih =>
    replace ih := ih (fun d hd => ho d (List.mem_cons_of_mem _ hd)) (hasPair_tail hbn) (hasPair_tail hnb)
    by_cases hb : c = ' '
    · subst hb
      exact singleReads_blank hi (fun h => absurd (hasPair_head hbn rfl h) (by decide)) ih
    by_cases hn : c = '\n'
    · subst hn
      exact singleReads_break hi (fun h => absurd (hasPair_head hnb rfl h) (by decide)) ih
    exact singleReads_char hb hn (ho c List.mem_cons_self) ih

theorem ordinary_singleFrom (ho : Ordinary cs) (indent column : Nat) (before : Before) :
    Ordinary (singleFrom indent column before cs) := by
  induction cs generalizing column before with
  | nil => exact .cons (by decide) .nil
  | cons c cs ih =>
    obtain ⟨hc, ho⟩ := List.forall_mem_cons.1 ho
    rw [singleFrom]
    split
    · split
      · exact .append (.newLine indent) (ih ho _ _)
      · exact .cons (by decide) (ih ho _ _)
    split
    · refine .append (.append ?_ ?_) (ih ho _ _)
      · split <;> decide
      · split
        · exact .nil
        · exact .blanks indent
    split
    · exact .cons (by decide) (.cons (by decide) (ih ho _ _))
    · exact .cons hc (ih ho _ _)

/-- **A text between single quotes reads back.** -/
theorem single_singleFrom {indent : Nat} (column : Nat) (hi : 0 < indent) (hr : rest.head? ≠ some '\'') {s : String}
    (h : allowsSingle s = true) (p : Position) :
    single (marks p (singleFrom indent column .barred s.toList ++ rest)) =
      .ok (.plain s, marks (p.behind (singleFrom indent column .barred s.toList)) rest) := by
  simp only [allowsSingle, Bool.and_eq_true, List.all_eq_true, Bool.not_eq_true'] at h
  have hy := singleReads hi hr h.1.1 h.1.2 h.2 column _ _ (.blanks [] (.inl rfl))
  rw [single, hy.content p, Pause.text_blanks, List.nil_append, String.ofList_toList]

end Single

/-! ## Between double quotes -/

section Double

variable {c e : Char} {cs rest : List Char}

theorem takes_double_char (hq : c ≠ '"') (hb : c ≠ '\\') (hg : isGap c = false) :
    Takes doublePieces [c] (.char c) cs := by
  intro p
  simp only [isGap, Bool.or_eq_false_iff, decide_eq_false_iff_not] at hg
  rw [List.cons_append, marks, doublePieces.eq_def]
  simp [hq, hb, hg, Position.behind]

theorem takes_double_blank : Takes doublePieces [' '] (.blank ' ') cs := by
  intro p
  rw [List.cons_append, marks, doublePieces.eq_def]
  simp [Position.behind]

theorem takes_double_escape (h : escapes.lookup e = some c) : Takes doublePieces ['\\', e] (.char c) cs := by
  intro p
  rw [List.cons_append, marks, doublePieces.eq_def]
  simp [marks, h, Position.behind]

theorem takes_double_joint (h : ∀ p, isSeparator (marks p cs) = false) :
    Takes doublePieces ['\\', '\n'] .joint cs := by
  intro p
  have he : escapes.lookup '\n' = none := by decide
  rw [List.cons_append, marks, doublePieces.eq_def]
  simp [marks, he, Position.behind, pushBreak, h, isBreak]

theorem yields_double_close (pause : Pause) : Yields doublePieces pause ['"'] rest pause.text := by
  refine ⟨[], fun p => ?_, by cases pause <;> rfl⟩
  rw [List.cons_append, marks, doublePieces_quote rfl, List.nil_append]
  rfl

/-! ### Codes -/

theorem hexNumber?_upperHex (n width : Nat) : hexNumber? (upperHex n width) = some (n % 16 ^ width) := by
  have hd : ∀ d < 16, hexValue? (Text.hexDigit d).toUpper = some d := by decide
  induction width generalizing n with
  | zero => simp [upperHex, Text.hexDigits, hexNumber?, Nat.mod_one]
  | succ width ih =>
    have ih := ih (n / 16)
    simp only [upperHex, hexNumber?] at ih ⊢
    rw [Text.hexDigits, List.map_append, List.foldlM_append, ih]
    have h16 := hd (n % 16) (Nat.mod_lt _ (by decide))
    simp only [List.map_cons, List.map_nil, List.foldlM_cons, List.foldlM_nil, h16, Option.map_some, bind_pure,
      Option.bind_eq_bind, Option.bind_some, Option.some.injEq]
    rw [Nat.pow_succ, Nat.mul_comm (16 ^ width), Nat.mod_mul]
    omega

theorem ofCode_toNat (c : Char) : ofCode c.toNat = .ok (.char c) := by
  have hv : c.toNat < 0xd800 ∨ (0xdfff < c.toNat ∧ c.toNat < 0x110000) := c.valid
  have hs : ¬ (0xd800 ≤ c.toNat ∧ c.toNat ≤ 0xdfff) := by omega
  rw [ofCode, if_neg hs, if_pos (by omega), Char.ofNat_toNat]

theorem codePiece_upperHex {width : Nat} (h : c.toNat < 16 ^ width) (ms : List Mark)
    (hm : ms.map (·.char) = upperHex c.toNat width) : codePiece ms = .ok (.char c) := by
  rw [codePiece, hm, hexNumber?_upperHex, Nat.mod_eq_of_lt h]
  exact ofCode_toNat c

/-- A character by its code, in as many digits as it takes. -/
theorem takes_double_x (h : c.toNat < 16 ^ 2) :
    Takes doublePieces ('\\' :: 'x' :: upperHex c.toNat 2) (.char c) cs := by
  obtain ⟨a, b, hd⟩ : ∃ a b, upperHex c.toNat 2 = [a, b] := ⟨_, _, rfl⟩
  have he : escapes.lookup 'x' = none := by decide
  have hc := fun p q => codePiece_upperHex h [⟨a, p⟩, ⟨b, q⟩] hd.symm
  intro p
  rw [hd, List.cons_append, marks, doublePieces.eq_def]
  simp [marks, he, hc, Position.behind, isBreak]
  rfl

theorem takes_double_u (h : c.toNat < 16 ^ 4) :
    Takes doublePieces ('\\' :: 'u' :: upperHex c.toNat 4) (.char c) cs := by
  obtain ⟨a, b, d, e, hd⟩ : ∃ a b d e, upperHex c.toNat 4 = [a, b, d, e] := ⟨_, _, _, _, rfl⟩
  have he : escapes.lookup 'u' = none := by decide
  have hc := fun p q r s => codePiece_upperHex h [⟨a, p⟩, ⟨b, q⟩, ⟨d, r⟩, ⟨e, s⟩] hd.symm
  intro p
  rw [hd, List.cons_append, marks, doublePieces.eq_def]
  simp [marks, he, hc, Position.behind, isBreak]
  rfl

theorem takes_double_U (h : c.toNat < 16 ^ 8) :
    Takes doublePieces ('\\' :: 'U' :: upperHex c.toNat 8) (.char c) cs := by
  obtain ⟨a, b, d, e, f, g, i, j, hd⟩ : ∃ a b d e f g i j, upperHex c.toNat 8 = [a, b, d, e, f, g, i, j] :=
    ⟨_, _, _, _, _, _, _, _, rfl⟩
  have he : escapes.lookup 'U' = none := by decide
  have hc := fun p q r s t u v w =>
    codePiece_upperHex h [⟨a, p⟩, ⟨b, q⟩, ⟨d, r⟩, ⟨e, s⟩, ⟨f, t⟩, ⟨g, u⟩, ⟨i, v⟩, ⟨j, w⟩] hd.symm
  intro p
  rw [hd, List.cons_append, marks, doublePieces.eq_def]
  simp [marks, he, hc, Position.behind, isBreak]
  rfl

theorem takes_double_code : Takes doublePieces (code c) (.char c) cs := by
  have hv : c.toNat < 0xd800 ∨ (0xdfff < c.toNat ∧ c.toNat < 0x110000) := c.valid
  unfold code
  split
  · next d hd =>
    obtain ⟨l₁, l₂, hl, -⟩ := List.lookup_eq_some_iff.1 hd
    have hall : ∀ e ∈ shortCodes, escapes.lookup e.2 = some e.1 := by decide
    exact takes_double_escape (hall (c, d) (by simp [hl]))
  · dsimp only
    split
    · exact takes_double_x (by omega)
    split
    · exact takes_double_u (by omega)
    · exact takes_double_U (by omega)

/-! ### Lines -/

theorem ne_of_not_needsCode (h : needsCode c = false) : c ≠ '"' ∧ c ≠ '\\' ∧ isOrdinary c = true ∧ c ≠ '\n' := by
  simp only [needsCode, Bool.or_eq_false_iff, decide_eq_false_iff_not, Bool.not_eq_false', Bool.and_eq_true,
    decide_eq_true_eq] at h
  refine ⟨h.1.1, h.1.2, by simp [isOrdinary, h.2], ?_⟩
  rintro rfl
  exact absurd h.2.1 (by decide)

/-- From wherever the writer may be in a line, what it writes of `cs` is read as `cs`. -/
def DoubleReads (indent : Nat) (rest cs : List Char) : Prop :=
  ∀ column first coded bs,
    Yields doublePieces (.blanks bs) (doubleFrom indent column first coded cs) rest (bs ++ cs)

/-- The same at the beginning of a further line, where a blank needs a backslash. -/
def DoubleGoesOn (indent : Nat) (rest cs : List Char) : Prop :=
  ∀ coded, Yields doublePieces (.breaks none []) ((if cs.head? = some ' ' then ['\\'] else []) ++
    doubleFrom indent (afterJoint indent cs) false coded cs) rest cs

theorem yields_joint {indent : Nat} (hi : 0 < indent) (bs : List Char) {out text : List Char}
    (hy : Yields doublePieces (.breaks none []) ((if cs.head? = some ' ' then ['\\'] else []) ++ text) rest out) :
    Yields doublePieces (.blanks bs) (joint indent cs ++ text) rest (bs ++ out) := by
  have hline := hy.skip (fun _ => takes_double_blank) indent
  have hsep : Takes doublePieces ['\\', '\n'] .joint (List.replicate indent ' ' ++
      ((if cs.head? = some ' ' then ['\\'] else []) ++ text) ++ rest) :=
    takes_double_joint fun p => by
      rw [List.append_assoc]
      exact isSeparator_blanks hi p _
  have hjoint : Yields doublePieces (.blanks bs) _ rest (bs ++ out) := hline.take hsep fun _ => rfl
  simpa [joint, newLine] using hjoint

/-- A character that begins a line, behind a backslash if it is a blank. -/
theorem yields_lineStart {text : List Char} (hn : needsCode c = false)
    (hy : Yields doublePieces (.blanks []) text rest cs) :
    Yields doublePieces (.breaks none []) ((if (c :: cs).head? = some ' ' then ['\\'] else []) ++ c :: text) rest
      (c :: cs) := by
  obtain ⟨hq, hb, ho, hl⟩ := ne_of_not_needsCode hn
  by_cases hc : c = ' '
  · subst hc
    exact hy.char (x := ['\\', ' ']) (takes_double_escape (by decide))
  · rw [if_neg (by simpa using hc)]
    exact hy.char (x := [c]) (takes_double_char hq hb (isGap_of_isOrdinary ho hl hc))

/-- A character in the midst of a line. -/
theorem yields_self {text bs : List Char} (hn : needsCode c = false)
    (hy : ∀ bs, Yields doublePieces (.blanks bs) text rest (bs ++ cs)) :
    Yields doublePieces (.blanks bs) (c :: text) rest (bs ++ c :: cs) := by
  obtain ⟨hq, hb, ho, hl⟩ := ne_of_not_needsCode hn
  by_cases hc : c = ' '
  · subst hc
    simpa using (hy (bs ++ [' '])).blank takes_double_blank
  · exact (hy []).char (x := [c]) (takes_double_char hq hb (isGap_of_isOrdinary ho hl hc))

section Step

variable {indent : Nat}

/-- A code, after which the line may be broken. -/
theorem yields_code (hi : 0 < indent) (hr : DoubleReads indent rest cs) (hg : DoubleGoesOn indent rest cs)
    (h : needsCode c = true) (column : Nat) (first coded : Bool) (pause : Pause) :
    Yields doublePieces pause (doubleFrom indent column first coded (c :: cs)) rest (pause.text ++ c :: cs) := by
  rw [doubleFrom, if_pos h]
  dsimp only
  split
  · rw [List.append_assoc]
    exact (yields_joint hi [] (hg true)).char takes_double_code
  · exact (hr _ _ _ []).char takes_double_code

theorem doubleReads_cons (hi : 0 < indent) (hr : DoubleReads indent rest cs) (hg : DoubleGoesOn indent rest cs) :
    DoubleReads indent rest (c :: cs) := by
  intro column first coded bs
  cases hn : needsCode c with
  | true => exact yields_code hi hr hg hn column first coded (.blanks bs)
  | false =>
    rw [doubleFrom, if_neg (show ¬ needsCode c = true by simp [hn])]
    split
    · exact yields_joint hi bs (yields_lineStart hn (hr _ _ _ []))
    · exact yields_self hn (hr _ _ _)

theorem afterJoint_le (indent : Nat) (cs : List Char) : afterJoint indent cs ≤ indent + 1 := by
  unfold afterJoint
  split <;> omega

/-- At the beginning of a line it is not broken again, so what keeps a blank there stands before it. -/
theorem doubleGoesOn_cons (hi : 0 < indent) (hw : indent + 1 ≤ width) (hr : DoubleReads indent rest cs)
    (hg : DoubleGoesOn indent rest cs) : DoubleGoesOn indent rest (c :: cs) := by
  intro coded
  cases hn : needsCode c with
  | true =>
    have hc : c ≠ ' ' := by
      rintro rfl
      exact absurd hn (by decide)
    rw [if_neg (by simpa using hc)]
    exact yields_code hi hr hg hn _ _ _ (.breaks none [])
  | false =>
    have hcol := afterJoint_le indent (c :: cs)
    have hself : doubleFrom indent (afterJoint indent (c :: cs)) false coded (c :: cs) =
        c :: doubleFrom indent (afterJoint indent (c :: cs) + 1) false false cs := by
      rw [doubleFrom, if_neg (show ¬ needsCode c = true by simp [hn]), if_neg]
      simp only [Bool.and_eq_true, decide_eq_true_eq]
      omega
    rw [hself]
    exact yields_lineStart hn (hr _ _ _ [])

theorem doubleReads (hi : 0 < indent) (hw : indent + 1 ≤ width) (rest cs : List Char) :
    DoubleReads indent rest cs ∧ DoubleGoesOn indent rest cs := by
  induction cs with
  | nil =>
    refine ⟨fun column first coded bs => ?_, fun coded => yields_double_close (.breaks none [])⟩
    simpa [doubleFrom] using yields_double_close (.blanks bs)
  | cons c cs ih => exact ⟨doubleReads_cons hi ih.1 ih.2, doubleGoesOn_cons hi hw ih.1 ih.2⟩

end Step

theorem ordinary_upperHex (n width : Nat) : Ordinary (upperHex n width) := by
  have hd : ∀ d < 16, isOrdinary (Text.hexDigit d).toUpper = true := by decide
  induction width generalizing n with
  | zero => exact .nil
  | succ width ih =>
    rw [upperHex, Text.hexDigits, List.map_append]
    exact .append (ih (n / 16)) (.cons (hd _ (Nat.mod_lt _ (by decide))) .nil)

theorem ordinary_code (c : Char) : Ordinary (code c) := by
  unfold code
  split
  · next d hd =>
    obtain ⟨l₁, l₂, hl, -⟩ := List.lookup_eq_some_iff.1 hd
    have hall : ∀ e ∈ shortCodes, isOrdinary e.2 = true := by decide
    exact .cons (by decide) (.cons (hall (c, d) (by simp [hl])) .nil)
  · dsimp only
    repeat' split
    all_goals exact .cons (by decide) (.cons (by decide) (ordinary_upperHex _ _))

theorem ordinary_joint (indent : Nat) (cs : List Char) : Ordinary (joint indent cs) := by
  refine .cons (by decide) (.append (.newLine indent) ?_)
  split <;> decide

theorem ordinary_doubleFrom (indent column : Nat) (first coded : Bool) (cs : List Char) :
    Ordinary (doubleFrom indent column first coded cs) := by
  induction cs generalizing column first coded with
  | nil => exact .cons (by decide) .nil
  | cons c cs ih =>
    rw [doubleFrom]
    split
    · dsimp only
      split
      · exact .append (.append (ordinary_code c) (ordinary_joint indent cs)) (ih _ _ _)
      · exact .append (ordinary_code c) (ih _ _ _)
    · next hn =>
      have hc := (ne_of_not_needsCode (Bool.eq_false_iff.2 hn)).2.2.1
      split
      · exact .append (ordinary_joint indent (c :: cs)) (.cons hc (ih _ _ _))
      · exact .cons hc (ih _ _ _)

/-- **A text between double quotes reads back.** -/
theorem double_doubleFrom {indent : Nat} (column : Nat) (hi : 0 < indent) (hw : indent + 1 ≤ width) (s : String)
    (rest : List Char) (p : Position) :
    double (marks p (doubleFrom indent column true false s.toList ++ rest)) =
      .ok (.plain s, marks (p.behind (doubleFrom indent column true false s.toList)) rest) := by
  have hy := (doubleReads hi hw rest s.toList).1 column true false []
  rw [double, hy.content p, List.nil_append, String.ofList_toList]

end Double

end ExemptZones.Yaml
