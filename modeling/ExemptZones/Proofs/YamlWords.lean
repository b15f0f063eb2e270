import ExemptZones.Proofs.YamlNodes

/-
Words and comments. A text of bare words, one on a line or several, is one plain scalar, across its line breaks; but a
comment ends it, and the word behind the comment begins another scalar, which no document has room for.

`Layout`: texts that are made of words and comments, with blanks and line breaks around them.
`plainFrom_layout`: a plain scalar takes in the words up to the next comment.
`run_layout`: there is more than one scalar exactly if a comment stands between two words (`Interrupted`).
`read_layout`: such a text is not read, and any other is, as something that is no list.
-/

namespace ExemptZones.Yaml

/-! ## Texts of words and comments -/

inductive Chunk where
  | word
  | comment
  deriving DecidableEq, Repr

/-- Blanks and line breaks. -/
def Space (g : List Char) : Prop :=
  ∀ c ∈ g, c = ' ' ∨ c = '\n'

/-- Letters and digits that are the beginning of no number, date or flag. -/
structure IsWord (w : List Char) : Prop where
  ne_nil : w ≠ []
  alphanum : ∀ c ∈ w, c.isAlphanum = true
  text : ∀ r, Kind.ofText (String.ofList (w ++ r)) = .text

/-- A text that is made of words and comments, in the order of its parts. A word ends at a blank or with its line, and a
comment with its line. -/
inductive Layout : List Char → List Chunk → Prop where
  | space {g : List Char} (hg : Space g) : Layout g []
  | word {g w cs : List Char} {ps : List Chunk} (hg : Space g) (hw : IsWord w)
    (ends : ∀ c ∈ cs.head?, c = ' ' ∨ c = '\n') (rest : Layout cs ps) : Layout (g ++ (w ++ cs)) (.word :: ps)
  | comment {g t cs : List Char} {ps : List Chunk} (hg : Space g) (ht : ∀ c ∈ t, isBreak c = false)
    (ends : ∀ c ∈ cs.head?, c = '\n') (rest : Layout cs ps) : Layout (g ++ '#' :: (t ++ cs)) (.comment :: ps)

/-- A comment stands between two words. -/
def Interrupted (ps : List Chunk) : Prop :=
  [Chunk.word, .comment, .word].Sublist ps

instance (ps : List Chunk) : Decidable (Interrupted ps) :=
  inferInstanceAs (Decidable (List.Sublist _ _))

section Parts

variable {ps : List Chunk}

theorem interrupted_comment : Interrupted (.comment :: ps) ↔ Interrupted ps := by
  simp [Interrupted, List.sublist_cons_iff]

/-- Behind a word, and the words that follow it at once, there is another word. -/
theorem interrupted_word : Interrupted (.word :: ps) ↔ .word ∈ ps.dropWhile (· = .word) := by
  have hword : Interrupted (.word :: ps) ↔ [Chunk.comment, .word].Sublist ps := by
    rw [Interrupted, List.sublist_cons_iff]
    exact ⟨fun h => h.elim (List.sublist_cons_self _ _).trans (by simp), fun h => .inr ⟨_, rfl, h⟩⟩
  rw [hword]
  clear hword
  induction ps with
  | nil => simp
  | cons p ps ih =>
    cases p with
    | word => simpa [List.sublist_cons_iff] using ih
    | comment =>
      have hmem : [Chunk.comment, .word].Sublist ps → .word ∈ ps := fun h => h.subset (by simp)
      simpa [List.sublist_cons_iff] using hmem

end Parts

/-! ## Blanks, line breaks and comments -/

section Chars

variable {c d : Char} {g t cs : List Char}

theorem ne_of_isAlphanum (h : c.isAlphanum = true) (hd : d.isAlphanum = false) : c ≠ d := by
  rintro rfl
  rw [h] at hd
  cases hd

theorem isGap_of_isAlphanum (h : c.isAlphanum = true) : isGap c = false := by
  simp [isGap, isBreak, ne_of_isAlphanum h]

theorem begins_of_isAlphanum (h : c.isAlphanum = true) : Begins c := by
  simp [Begins, isBreak, ne_of_isAlphanum h]

theorem Space.blanks (n : Nat) : Space (List.replicate n ' ') := fun _ hc => .inl (List.eq_of_mem_replicate hc)

theorem Space.append (h : Space g) (h' : Space t) : Space (g ++ t) := fun c hc =>
  (List.mem_append.1 hc).elim (h c) (h' c)

theorem Layout.append_space {ps : List Chunk} (hg : Space g) (h : Layout cs ps) : Layout (g ++ cs) ps := by
  cases h with
  | space hg' => exact .space (hg.append hg')
  | word hg' hw ends rest =>
    rw [← List.append_assoc]
    exact .word (hg.append hg') hw ends rest
  | comment hg' ht ends rest =>
    rw [← List.append_assoc]
    exact .comment (hg.append hg') ht ends rest

/-- Blanks come first, and a line break after them unless nothing else follows. -/
theorem Space.split (hg : Space g) :
    ∃ n, g = List.replicate n ' ' ∨ ∃ g', Space g' ∧ g = List.replicate n ' ' ++ '\n' :: g' := by
  induction g with
  | nil => exact ⟨0, .inl rfl⟩
  | cons c g ih =>
    obtain ⟨hc, hg'⟩ := List.forall_mem_cons.1 hg
    rcases hc with rfl | rfl
    · obtain ⟨n, rfl | ⟨g', h, rfl⟩⟩ := ih hg'
      · exact ⟨n + 1, .inl rfl⟩
      · exact ⟨n + 1, .inr ⟨g', h, rfl⟩⟩
    · exact ⟨0, .inr ⟨g, hg', rfl⟩⟩

/-- A text that begins with no blank, no line break and no separator, if it is not empty. -/
def Solid (cs : List Char) : Prop :=
  ∀ c ∈ cs.head?, c ≠ ' ' ∧ isBreak c = false ∧ c ≠ '-' ∧ c ≠ '.'

theorem isSeparator_space (hg : Space g) (hs : Solid cs) (p : Position) :
    isSeparator (marks p (g ++ cs)) = false := by
  cases g with
  | cons c g =>
    rcases (List.forall_mem_cons.1 hg).1 with rfl | rfl <;> exact isSeparator_cons (by decide) (by decide)
  | nil =>
    cases cs with
    | nil => rfl
    | cons c cs => exact isSeparator_cons (hs c rfl).2.2.1 (hs c rfl).2.2.2

theorem exists_breaksBetween (hg : Space g) (hs : Solid cs) (p : Position) :
    ∃ bs, breaksBetween (marks p (g ++ cs)) = some (bs, marks (p.behind g) cs) := by
  induction g generalizing p with
  | nil =>
    cases cs with
    | nil => exact ⟨[], rfl⟩
    | cons c cs => exact ⟨[], by simp [marks, breaksBetween, hs c rfl, Position.behind]⟩
  | cons c g ih =>
    obtain ⟨hc, hg'⟩ := List.forall_mem_cons.1 hg
    obtain ⟨bs, hb⟩ := ih hg' (p.after c)
    have hsep := isSeparator_space hg' hs (p.after c)
    rw [Position.behind, List.foldl_cons, ← Position.behind]
    rcases hc with rfl | rfl
    · exact ⟨bs, by simpa [marks, breaksBetween, isBreak] using hb⟩
    · exact ⟨[breakChar '\n'] ++ bs, by simp [marks, breaksBetween, isBreak, hsep, hb]⟩

theorem between_blanks_newline (hg : Space g) (hs : Solid cs) (p : Position) (n : Nat) :
    ∃ gap, between (marks p (List.replicate n ' ' ++ '\n' :: (g ++ cs))) =
      some (gap, marks (((p.behind (List.replicate n ' ')).after '\n').behind g) cs) := by
  obtain ⟨bs, hb⟩ := exists_breaksBetween hg hs ((p.behind (List.replicate n ' ')).after '\n')
  have hsep := isSeparator_space hg hs ((p.behind (List.replicate n ' ')).after '\n')
  refine ⟨joinBreaks (breakChar '\n') bs, ?_⟩
  simp only [between, skipSpaces_blanks (show '\n' ≠ ' ' by decide), marks]
  simp [isBreak, hsep, hb]

/-- Blanks at the end of a text stand between nothing. -/
theorem between_blanks_end (p : Position) (n : Nat) : between (marks p (List.replicate n ' ')) = none := by
  have hskip : skipSpaces (marks p (List.replicate n ' ')) = [] := by
    induction n generalizing p with
    | zero => rfl
    | succ n ih => simpa [skipSpaces, List.replicate_succ, marks] using ih (p.after ' ')
  rw [between, hskip]

/-- What is read between two words ends where the next part begins. -/
theorem eq_of_between {gap : List Char} {next : List Mark} {p : Position} (hg : Space g) (hs : Solid cs)
    (h : between (marks p (g ++ cs)) = some (gap, next)) : next = marks (p.behind g) cs := by
  obtain ⟨n, rfl | ⟨g', hg', rfl⟩⟩ := hg.split
  · cases cs with
    | nil =>
      rw [List.append_nil, between_blanks_end] at h
      cases h
    | cons c cs =>
      rcases Nat.eq_zero_or_pos n with rfl | hn
      · simp [between, marks, skipSpaces, hs c rfl] at h
      · rw [between_blanks (hs c rfl).1 (hs c rfl).2.1 p hn] at h
        cases h
        rfl
  · obtain ⟨gap', hb⟩ := between_blanks_newline hg' hs p n
    rw [List.append_assoc, List.cons_append, hb] at h
    cases h
    simp [Position.behind]

theorem exists_between (hg : Space g) (hs : Solid cs) (hne : g ≠ []) (hcs : cs ≠ []) (p : Position) :
    ∃ gap, between (marks p (g ++ cs)) = some (gap, marks (p.behind g) cs) := by
  obtain ⟨n, rfl | ⟨g', hg', rfl⟩⟩ := hg.split
  · obtain ⟨c, cs, rfl⟩ := List.exists_cons_of_ne_nil hcs
    have hn : 0 < n := Nat.pos_of_ne_zero fun h => hne (by rw [h]; rfl)
    exact ⟨_, between_blanks (hs c rfl).1 (hs c rfl).2.1 p hn⟩
  · obtain ⟨gap, hb⟩ := between_blanks_newline hg' hs p n
    refine ⟨gap, ?_⟩
    rw [List.append_assoc, List.cons_append, hb]
    simp [Position.behind]

end Chars

/-! ## A plain scalar -/

section Plain

variable {w cs : List Char} {ps : List Chunk} {fuel : Nat}

theorem IsWord.solid (hw : IsWord w) (cs : List Char) : Solid (w ++ cs) := by
  obtain ⟨c, r, rfl⟩ := List.exists_cons_of_ne_nil hw.ne_nil
  intro d hd
  obtain rfl : c = d := Option.some.inj hd
  have hc := hw.alphanum c List.mem_cons_self
  simp [isBreak, ne_of_isAlphanum hc]

/-- A word is read as it stands, and what is read behind it is added. -/
theorem plainFrom_word (hw : ∀ c ∈ w, c.isAlphanum = true) (p : Position) :
    plainFrom false 0 (fuel + 1) (marks p (w ++ cs)) =
      (w ++ (plainFrom false 0 (fuel + 1) (marks (p.behind w) cs)).1,
        (plainFrom false 0 (fuel + 1) (marks (p.behind w) cs)).2) := by
  induction w generalizing p with
  | nil => rfl
  | cons c w ih =>
    obtain ⟨hc, hw'⟩ := List.forall_mem_cons.1 hw
    have hgoes : endsWord false (marks p (c :: (w ++ cs))) = false := by
      simp [marks, endsWord, isGap_of_isAlphanum hc, ne_of_isAlphanum hc]
    rw [List.cons_append]
    rw [marks] at hgoes ⊢
    rw [plainFrom_char hgoes, ih hw' (p.after c)]
    rfl

theorem endsWord_of_ends (h : ∀ c ∈ cs.head?, c = ' ' ∨ c = '\n') (p : Position) :
    endsWord false (marks p cs) = true := by
  cases cs with
  | nil => rfl
  | cons c r => exact endsWord_of_isGap (by rcases h c rfl with rfl | rfl <;> rfl) false r

theorem solid_nil : Solid [] := by
  simp [Solid]

theorem solid_comment (t : List Char) : Solid ('#' :: t) := by
  intro c hc
  obtain rfl : '#' = c := Option.some.inj hc
  decide

/-- **A plain scalar takes in the words up to the next comment.** What is left begins with that comment. -/
theorem plainFrom_layout (h : Layout cs ps) (hends : ∀ c ∈ cs.head?, c = ' ' ∨ c = '\n') (p : Position) :
    ∃ t q rest, (∀ fuel, cs.length < fuel → plainFrom false 0 fuel (marks p cs) = (t, marks q rest)) ∧
      Layout rest (ps.dropWhile (· = .word)) ∧ rest.length ≤ cs.length := by
  induction h generalizing p with
  | @space g hg =>
    refine ⟨[], p, g, fun fuel hf => ?_, .space hg, Nat.le_refl _⟩
    obtain ⟨fuel, rfl⟩ : ∃ n, fuel = n + 1 := ⟨fuel - 1, by omega⟩
    refine plainFrom_end (endsWord_of_ends hends p) fun gap next hb => ?_
    rw [← List.append_nil g] at hb
    rw [eq_of_between hg solid_nil hb]
    rfl
  | @comment g t cs ps hg ht ends rest _ =>
    refine ⟨[], p, _, fun fuel hf => ?_, .comment hg ht ends rest, Nat.le_refl _⟩
    obtain ⟨fuel, rfl⟩ : ∃ n, fuel = n + 1 := ⟨fuel - 1, by omega⟩
    refine plainFrom_end (endsWord_of_ends hends p) fun gap next hb => ?_
    rw [eq_of_between hg (solid_comment _) hb]
    rfl
  | @word g w cs ps hg hw ends rest ih =>
    have hsolid := hw.solid cs
    have hcs : w ++ cs ≠ [] := by simp [hw.ne_nil]
    have hne : g ≠ [] := by
      rintro rfl
      obtain ⟨c, r, hc⟩ := List.exists_cons_of_ne_nil hcs
      rw [List.nil_append, hc] at hends
      rw [hc] at hsolid
      rcases hends c rfl with rfl | rfl
      · exact (hsolid ' ' rfl).1 rfl
      · exact absurd (hsolid '\n' rfl).2.1 (by decide)
    obtain ⟨gap, hb⟩ := exists_between hg hsolid hne hcs p
    obtain ⟨t, q, rest', hread, hlayout, hle⟩ := ih ends ((p.behind g).behind w)
    have hgoes : goesOn false 0 (marks (p.behind g) (w ++ cs)) = true := by
      obtain ⟨c, w, rfl⟩ := List.exists_cons_of_ne_nil hw.ne_nil
      have hc := hw.alphanum c List.mem_cons_self
      simp [marks, goesOn, endsWord, isGap_of_isAlphanum hc, ne_of_isAlphanum hc]
    refine ⟨gap ++ (w ++ t), q, rest', fun fuel hf => ?_, hlayout, ?_⟩
    · have hlen := List.length_pos_iff.2 hw.ne_nil
      have hlen' := List.length_pos_iff.2 hne
      simp only [List.length_append] at hf
      obtain ⟨fuel, rfl⟩ : ∃ n, fuel = n + 2 := ⟨fuel - 2, by omega⟩
      rw [plainFrom_gap (endsWord_of_ends hends p) hb hgoes, plainFrom_word hw.alphanum, hread _ (by omega)]
    · simp only [List.length_append]
      omega

end Plain

/-! ## The tokens -/

namespace Lexer

section States

variable {ts : List Token} {is : List Nat} {allowed : Bool} {o : Option Candidate} {p : Position}
  {g t w cs : List Char} {ps : List Chunk}

theorem exists_dropStale (ts : List Token) (is : List Nat) (allowed : Bool) (ho : Free o) (p : Position) :
    ∃ o', Free o' ∧ (base ts is allowed o).dropStale p = .ok (base ts is allowed o') := by
  cases o with
  | none => exact ⟨none, nofun, rfl⟩
  | some c =>
    have hr := ho c rfl
    refine ⟨fresh p (some c), fun d hd => ?_, by simp [dropStale, base, hr]⟩
    rw [fresh, Option.mem_def, Option.filter_eq_some_iff] at hd
    exact ho d hd.1

/-- Outside all blocks no token has to be a key. -/
theorem exists_atom (ts : List Token) (allowed : Bool) (ho : Free o) (u : Token) (p : Position) :
    ∃ o', Free o' ∧ (base ts [] allowed o).atom u p = .ok (base (u :: ts) [] false o') := by
  cases allowed with
  | false => exact ⟨o, ho, rfl⟩
  | true =>
    have hd : (base ts [] true o).dropCandidate = .ok (base ts [] true none) := by
      cases o with
      | none => rfl
      | some c => simp [dropCandidate, candidate, base, ho c rfl, setCandidate]
    refine ⟨some ⟨ts.length, p, false⟩, by simp [Free], ?_⟩
    have hk : (base ts [] true o).keyAllowed = true := rfl
    simp only [atom, saveCandidate, hk, if_true, hd]
    rfl

theorem skip_space (hg : Space g) (allowed : Bool) (p : Position) (cs : List Char) :
    ∃ allowed', skip false (base ts is allowed o) (marks p (g ++ cs)) =
      skip false (base ts is allowed' o) (marks (p.behind g) cs) := by
  induction g generalizing allowed p with
  | nil => exact ⟨allowed, rfl⟩
  | cons c g ih =>
    obtain ⟨hc, hg'⟩ := List.forall_mem_cons.1 hg
    rw [List.cons_append, Position.behind, List.foldl_cons, ← Position.behind]
    rcases hc with rfl | rfl
    · obtain ⟨allowed', h⟩ := ih hg' allowed (p.after ' ')
      exact ⟨allowed', by simpa [marks, skip, isBreak] using h⟩
    · rw [skip_newline]
      exact ih hg' true (p.after '\n')

theorem leads_space (hg : Space g) (ts : List Token) (is : List Nat) (allowed : Bool) (o : Option Candidate)
    (p : Position) (cs : List Char) :
    ∃ allowed', Leads (base ts is allowed o) (marks p (g ++ cs)) (base ts is allowed' o) (marks (p.behind g) cs) := by
  obtain ⟨allowed', h⟩ := skip_space hg allowed p cs
  exact ⟨allowed', leads_of_skip h (by simp [length_marks])⟩

theorem leads_comment (ht : ∀ c ∈ t, isBreak c = false) (ends : ∀ c ∈ cs.head?, c = '\n') (s : Lexer)
    (p : Position) :
    Leads s (marks p ('#' :: (t ++ cs))) s (marks ((p.after '#').behind t) cs) := by
  have hend : ∀ q, skip true s (marks q cs) = skip false s (marks q cs) := fun q => by
    cases cs with
    | nil => rfl
    | cons c r =>
      obtain rfl := ends c rfl
      simp [marks, skip, isBreak]
  have hrest : ∀ q, skip true s (marks q (t ++ cs)) = skip true s (marks (q.behind t) cs) := fun q => by
    induction t generalizing q with
    | nil => rfl
    | cons c t ih =>
      obtain ⟨hc, ht'⟩ := List.forall_mem_cons.1 ht
      simpa [marks, skip, hc, Position.behind] using ih ht' (q.after c)
  refine leads_of_skip ?_ (by simp [length_marks]; omega)
  rw [← hend, ← hrest]
  simp [marks, skip, isBreak]

/-- **Words up to the next comment are one scalar**, and that is a text. -/
theorem leads_words (hw : IsWord w) (ends : ∀ c ∈ cs.head?, c = ' ' ∨ c = '\n') (h : Layout cs ps) (ho : Free o)
    (p : Position) :
    ∃ s o' q rest, Leads (base ts [] allowed o) (marks p (w ++ cs))
        (base (.scalar (.plain s) true :: ts) [] false o') (marks q rest) ∧
      Kind.ofText s = .text ∧ Free o' ∧ Layout rest (ps.dropWhile (· = .word)) := by
  obtain ⟨t, q, rest, hread, hlayout, hle⟩ := plainFrom_layout h ends (p.behind w)
  obtain ⟨o₁, ho₁, hd⟩ := exists_dropStale ts [] allowed ho p
  obtain ⟨o₂, ho₂, ha⟩ := exists_atom ts allowed ho₁ (.scalar (.plain (String.ofList (w ++ t))) true) p
  refine ⟨String.ofList (w ++ t), o₂, q, rest, ?_, hw.text t, ho₂, hlayout⟩
  obtain ⟨c, r, rfl⟩ := List.exists_cons_of_ne_nil hw.ne_nil
  have hc := hw.alphanum c List.mem_cons_self
  have hmark : c ∉ startMarks := fun hm => by
    have hnone : startMarks.all (fun d => !d.isAlphanum) = true := by decide
    simpa [hc] using List.all_eq_true.1 hnone c hm
  rw [List.cons_append, marks]
  refine leads_token (m := ⟨c, p⟩) (begins_of_isAlphanum hc) hd (fun fuel hf => ?_) ?_
  · have hplain : plain false (base ts [] allowed o₁).least (fuel + 1) (⟨c, p⟩ :: marks (p.after c) (r ++ cs)) =
        (String.ofList (c :: r ++ t), marks q rest) := by
      show plain false 0 (fuel + 1) (marks p (c :: r ++ cs)) = _
      rw [length_marks, List.length_append] at hf
      rw [plain, plainFrom_word hw.alphanum, hread _ (by omega)]
    have hinside : Inside [] p.column := by simp [Inside]
    rw [unwind_of_inside hinside,
      token_plain (isGap_of_isAlphanum hc) hmark (by simp [ne_of_isAlphanum hc]) (by simp [ne_of_isAlphanum hc]),
      hplain]
    simp only [ha, Except.map]
  · simp only [length_marks, List.length_append]
    omega

/-- The tokens of words and comments: texts, of which there is none without a word, and more than one exactly if a
comment stands between two words. -/
structure Reads (ps : List Chunk) (us : List Token) : Prop where
  text : ∀ u ∈ us, ∃ s, u = .scalar (.plain s) true ∧ Kind.ofText s = .text
  eq_nil_iff : us = [] ↔ .word ∉ ps
  le_one_iff : us.length ≤ 1 ↔ ¬ Interrupted ps

theorem Reads.nil : Reads [] [] := ⟨nofun, by simp, by simp [Interrupted]⟩

theorem Reads.comment {us : List Token} (h : Reads ps us) : Reads (.comment :: ps) us where
  text := h.text
  eq_nil_iff := by simpa using h.eq_nil_iff
  le_one_iff := by rw [interrupted_comment]; exact h.le_one_iff

theorem Reads.word {us : List Token} {s : String} (hs : Kind.ofText s = .text)
    (h : Reads (ps.dropWhile (· = .word)) us) : Reads (.word :: ps) (.scalar (.plain s) true :: us) where
  text := List.forall_mem_cons.2 ⟨⟨s, rfl, hs⟩, h.text⟩
  eq_nil_iff := by simp
  le_one_iff := by
    have hmem : ¬ .word ∈ ps.dropWhile (· = .word) ↔ us = [] := h.eq_nil_iff.symm
    rw [interrupted_word, hmem]
    cases us <;> simp

/-- **The tokens of a layout.** Between the scalars nothing is kept but that no key is waited for. -/
theorem run_layout {n : Nat} (hn : ps.length < n) (h : Layout cs ps) (ts : List Token) (allowed : Bool) (ho : Free o)
    (p : Position) {fuel : Nat} (hf : cs.length < fuel) :
    ∃ us, run fuel (base ts [] allowed o) (marks p cs) = .ok (ts.reverse ++ us) ∧ Reads ps us := by
  induction n generalizing cs ps ts allowed o p fuel with
  | zero => exact absurd hn (Nat.not_lt_zero _)
  | succ n ih =>
    rw [← length_marks p] at hf
    cases h with
    | @space g hg =>
      obtain ⟨allowed', hspace⟩ := leads_space hg ts [] allowed o p []
      rw [List.append_nil] at hspace
      obtain ⟨fuel', hf', he⟩ := hspace fuel hf
      obtain ⟨k, rfl⟩ : ∃ k, fuel' = k + 1 := ⟨fuel' - 1, by omega⟩
      rw [he]
      exact ⟨[], by rw [List.append_nil]; exact run_end ho (Nat.zero_lt_succ k), .nil⟩
    | @word g w cs ps hg hw ends rest =>
      obtain ⟨allowed', hspace⟩ := leads_space hg ts [] allowed o p (w ++ cs)
      obtain ⟨s, o', q, rest', hwords, hs, ho', hlayout⟩ := leads_words hw ends rest ho (p.behind g)
      obtain ⟨fuel', hf', he⟩ := (hspace.trans hwords) fuel hf
      rw [length_marks] at hf'
      have hlen : (ps.dropWhile (· = .word)).length < n := by
        have := (List.dropWhile_sublist (l := ps) (· = .word)).length_le
        rw [List.length_cons] at hn
        omega
      obtain ⟨us, hrun, hreads⟩ := ih hlen hlayout (.scalar (.plain s) true :: ts) false ho' q hf'
      refine ⟨.scalar (.plain s) true :: us, ?_, hreads.word hs⟩
      rw [he, hrun, List.reverse_cons, List.append_assoc]
      rfl
    | @comment g t cs ps hg ht ends rest =>
      obtain ⟨allowed', hspace⟩ := leads_space hg ts [] allowed o p ('#' :: (t ++ cs))
      obtain ⟨fuel', hf', he⟩ := (hspace.trans (leads_comment ht ends _ _)) fuel hf
      rw [length_marks] at hf'
      obtain ⟨us, hrun, hreads⟩ := ih (Nat.lt_of_succ_lt_succ hn) rest ts allowed' ho _ hf'
      exact ⟨us, he.trans hrun, hreads.comment⟩

end States

end Lexer

/-! ## The document -/

section Documents

variable {cs : List Char} {ps : List Chunk}

/-- A document that is one text. -/
theorem ofTokens_scalar {s : String} (hs : Kind.ofText s = .text) (us : List Token) :
    Node.ofTokens (.scalar (.plain s) true :: us) =
      if (skipEnds us).isEmpty then .ok (some (.scalar (.kind .text) (.plain s))) else .error .secondDocument := by
  have htag : Properties.scalarTag {} true (.plain s) = .kind .text := congrArg Tag.kind hs
  have hannounced : ¬ isAnnounced (.scalar (.plain s) true :: us) = true := by simp [isAnnounced]
  have hnode : node .block (3 * (us.length + 1) + 3) ⟨.scalar (.plain s) true :: us, defaultHandles, []⟩ =
      .ok (.scalar (.kind .text) (.plain s), ⟨us, defaultHandles, []⟩) := by
    rw [node_scalar (s := ⟨[], defaultHandles, []⟩), htag]
  rw [Node.ofTokens, if_neg hannounced]
  · simp only [List.length_cons, hnode, bind, Except.bind, Node.ofTokens.atEnd]
    cases (skipEnds us).isEmpty <;> rfl
  · exact List.cons_ne_nil _ _

/-- **What is read of words and comments.** If a comment stands between two words, the text is not read; otherwise it is
nothing or one text. -/
theorem read_layout (ho : Ordinary cs) (h : Layout cs ps) :
    (Interrupted ps → read (String.ofList cs) = .error .secondDocument) ∧
      (¬ Interrupted ps → ∃ v, read (String.ofList cs) = .ok v ∧ ∀ vs, v ≠ .list vs) := by
  obtain ⟨us, hrun, hreads⟩ :=
    Lexer.run_layout (Nat.lt_succ_self _) h [] true (o := none) (by simp [Lexer.Free]) {} (Nat.lt_succ_self _)
  have ht : tokens cs = .ok us := (tokens_of_ordinary ho).trans hrun
  have htwo : Interrupted ps ↔ 2 ≤ us.length := by
    rw [← Decidable.not_iff_not, ← hreads.le_one_iff]
    omega
  have htext := hreads.text
  rw [htwo, read, String.toList_ofList, ht]
  rcases us with _ | ⟨u, _ | ⟨v, us⟩⟩
  · exact ⟨fun h => absurd h (by simp), fun _ => ⟨.null, rfl, by simp⟩⟩
  · obtain ⟨s, rfl, hs⟩ := htext u List.mem_cons_self
    refine ⟨fun h => absurd h (by simp), fun _ => ⟨.text s, ?_, by simp⟩⟩
    simp only [bind, Except.bind, ofTokens_scalar hs]
    rfl
  · obtain ⟨s, rfl, hs⟩ := htext u List.mem_cons_self
    obtain ⟨t, rfl, -⟩ := htext v (by simp)
    refine ⟨fun _ => ?_, fun h => absurd (by simp) h⟩
    simp only [bind, Except.bind, ofTokens_scalar hs]
    rfl

end Documents

end ExemptZones.Yaml
