import ExemptZones.Proofs.YamlLines

/-
Plain texts, as they are written and as they are read: words, and between two words blanks or the break of a line. The
reader goes from word to word, the writer from character to character; the blanks that the writer has left behind are
what the reader has still to come to.

`plain_plainFrom`: a text that nothing in it keeps from being plain reads back.
`plainText_of_allowsPlain`: such are the texts that are written so.
-/

namespace ExemptZones.Yaml

open Writer

variable {c : Char} {cs rest : List Char} {ms next : List Mark} {gap : List Char} {flow : Bool} {least fuel : Nat}

/-! ## The words of the reader -/

theorem plainFrom_char {m : Mark} (h : endsWord flow (m :: ms) = false) (fuel : Nat) :
    plainFrom flow least (fuel + 1) (m :: ms) =
      (m.char :: (plainFrom flow least (fuel + 1) ms).1, (plainFrom flow least (fuel + 1) ms).2) := by
  have hw : word flow (m :: ms) = (m.char :: (word flow ms).1, (word flow ms).2) := by
    rw [word, if_neg (by simp [h])]
  simp only [plainFrom, hw]
  split
  · split <;> rfl
  · rfl

theorem word_of_endsWord (h : endsWord flow ms = true) : word flow ms = ([], ms) := by
  cases ms with
  | nil => rfl
  | cons m r => rw [word, if_pos h]

theorem plainFrom_gap (h : endsWord flow ms = true) (hb : between ms = some (gap, next))
    (hg : goesOn flow least next = true) :
    plainFrom flow least (fuel + 1) ms =
      (gap ++ (plainFrom flow least fuel next).1, (plainFrom flow least fuel next).2) := by
  simp [plainFrom, word_of_endsWord h, hb, hg]

theorem plainFrom_end (h : endsWord flow ms = true)
    (hb : ∀ gap next, between ms = some (gap, next) → goesOn flow least next = false) :
    plainFrom flow least (fuel + 1) ms = ([], ms) := by
  simp only [plainFrom, word_of_endsWord h]
  split
  · next gap next hn => simp [hb gap next hn]
  · rfl

theorem between_blanks (hc : c ≠ ' ') (hn : isBreak c = false) (p : Position) {n : Nat} (h : 0 < n) :
    between (marks p (List.replicate n ' ' ++ c :: cs)) =
      some (List.replicate n ' ', marks (p.behind (List.replicate n ' ')) (c :: cs)) := by
  have ht := takeWhile_blanks hc p n cs
  have hne : ((marks p (List.replicate n ' ' ++ c :: cs)).takeWhile fun m => m.char = ' ') ≠ [] := by
    intro h0
    rw [h0] at ht
    cases n with
    | zero => omega
    | succ n => cases ht
  simp only [between, skipSpaces_blanks hc, ht]
  rw [marks]
  simp [hn, hne]

/-- A line break and an indentation are read as a blank. -/
theorem between_newLine (hc : c ≠ ' ') (hn : isBreak c = false) (p : Position) {n : Nat} (h : 0 < n) :
    between (marks p (newLine n ++ c :: cs)) = some ([' '], marks (p.behind (newLine n)) (c :: cs)) := by
  have hs : skipSpaces (marks p (newLine n ++ c :: cs)) = marks p (newLine n ++ c :: cs) := by
    simp [skipSpaces, newLine, marks]
  rw [between, hs]
  simp only [newLine, List.cons_append, marks]
  rw [isSeparator_blanks h, breaksBetween_blanks hc hn]
  simp [isBreak, joinBreaks, breakChar, Position.behind, marks]

/-! ## The words of the writer -/

/-- A text on one line that nothing in it keeps from being plain. -/
structure PlainText (cs : List Char) : Prop where
  ordinary : ∀ c ∈ cs, isOrdinary c = true ∧ c ≠ '\n'
  /-- No colon stands before a blank. -/
  colon : hasPair (· = ':') (· = ' ') cs = false
  /-- No comment begins after a blank. -/
  comment : hasPair (· = ' ') (· = '#') cs = false
  last : ∀ c, cs.getLast? = some c → c ≠ ' ' ∧ c ≠ ':'

theorem PlainText.tail (h : PlainText (c :: cs)) : PlainText cs where
  ordinary d hd := h.ordinary d (List.mem_cons_of_mem _ hd)
  colon := hasPair_tail h.colon
  comment := hasPair_tail h.comment
  last d hd := h.last d (by
    cases cs with
    | nil => cases hd
    | cons e r => rwa [List.getLast?_cons_cons])

theorem PlainText.isGap_head (h : PlainText (c :: cs)) (hb : c ≠ ' ') : isGap c = false :=
  isGap_of_isOrdinary (h.ordinary c List.mem_cons_self).1 (h.ordinary c List.mem_cons_self).2 hb

theorem plainFrom_cons (hb : c ≠ ' ') (indent column : Nat) (barred : Bool) :
    Writer.plainFrom indent column barred (c :: cs) = c :: Writer.plainFrom indent (column + 1) false cs := by
  rw [Writer.plainFrom, if_neg hb]

/-- A word goes on at each character but the blanks. -/
theorem PlainText.endsWord (h : PlainText (c :: cs)) (hb : c ≠ ' ') (p : Position) (indent column : Nat)
    (barred : Bool) (rest : List Char) :
    endsWord false (marks p (Writer.plainFrom indent column barred (c :: cs) ++ rest)) = false := by
  have hg := h.isGap_head hb
  rw [plainFrom_cons hb, List.cons_append, marks]
  by_cases hc : c = ':'
  · subst hc
    cases cs with
    | nil => exact absurd rfl (h.last ':' rfl).2
    | cons d r =>
      have hd : d ≠ ' ' := by simpa using hasPair_head h.colon rfl rfl
      have hg' := h.tail.isGap_head hd
      rw [plainFrom_cons hd, List.cons_append, marks]
      simp [Yaml.endsWord, atGap, hg, hg']
  · simp [Yaml.endsWord, hg, hc]

/-- Where a plain scalar ends: no word goes on here, and what comes next does not belong to it. -/
def Ends (least : Nat) (rest : List Char) : Prop :=
  ∀ p, endsWord false (marks p rest) = true ∧
    ∀ gap next, between (marks p rest) = some (gap, next) → goesOn false least next = false

/-- Behind `n` blanks that the writer left, what it writes of `cs` is read as the blanks and `cs`. A word that does not
begin the text stands at column `least` or further in. -/
def PlainReads (least indent : Nat) (rest cs : List Char) : Prop :=
  ∀ n column barred p fuel, (0 < n → barred = true ∧ cs ≠ [] ∧ cs.head? ≠ some '#') → least ≤ p.column + 1 →
    (List.replicate n ' ' ++ Writer.plainFrom indent column barred cs ++ rest).length < fuel →
    plainFrom false least fuel (marks p (List.replicate n ' ' ++ Writer.plainFrom indent column barred cs ++ rest)) =
      (List.replicate n ' ' ++ cs,
        marks (p.behind (List.replicate n ' ' ++ Writer.plainFrom indent column barred cs)) rest)

section Reads

variable {indent : Nat}

theorem plainReads_nil (he : Ends least rest) : PlainReads least indent rest [] := by
  intro n column barred p fuel hn _ hf
  obtain rfl : n = 0 := Nat.eq_zero_of_not_pos fun h => (hn h).2.1 rfl
  obtain ⟨fuel, rfl⟩ : ∃ k, fuel = k + 1 := ⟨fuel - 1, by omega⟩
  simpa [Writer.plainFrom, Position.behind] using plainFrom_end (he p).1 (he p).2

/-- At a character that begins a word. -/
theorem PlainReads.word (ih : PlainReads least indent rest cs) (h : PlainText (c :: cs)) (hb : c ≠ ' ')
    (column : Nat) (barred : Bool) (p : Position) (fuel : Nat) (hp : least ≤ p.column + 1)
    (hf : (Writer.plainFrom indent column barred (c :: cs) ++ rest).length < fuel) :
    plainFrom false least fuel (marks p (Writer.plainFrom indent column barred (c :: cs) ++ rest)) =
      (c :: cs, marks (p.behind (Writer.plainFrom indent column barred (c :: cs))) rest) := by
  obtain ⟨fuel, rfl⟩ : ∃ k, fuel = k + 1 := ⟨fuel - 1, by omega⟩
  have hw := h.endsWord hb p indent column barred rest
  rw [plainFrom_cons hb] at hw hf ⊢
  simp only [List.cons_append, List.length_cons, List.length_append] at hf
  have hc := h.ordinary c List.mem_cons_self
  have hi := ih 0 (column + 1) false (p.after c) (fuel + 1) nofun
    (by rw [Position.after_ordinary hc.1 hc.2]; simp only; omega)
    (by simp only [List.replicate_zero, List.nil_append, List.length_append]; omega)
  simp only [List.replicate_zero, List.nil_append] at hi
  rw [List.cons_append, marks] at hw ⊢
  rw [plainFrom_char hw, hi]
  rfl

/-- Words go on at a character that begins one. -/
theorem PlainText.goesOn (h : PlainText (c :: cs)) (hb : c ≠ ' ') (hc : c ≠ '#') {p : Position}
    (hp : least ≤ p.column) (indent column : Nat) (barred : Bool) (rest : List Char) :
    goesOn false least (marks p (Writer.plainFrom indent column barred (c :: cs) ++ rest)) = true := by
  have hw := h.endsWord hb p indent column barred rest
  rw [plainFrom_cons hb, List.cons_append, marks] at hw ⊢
  simp [Yaml.goesOn, hc, hp, hw]

/-- What parts two words, and the second word. -/
theorem plainFrom_afterGap {between' : List Char} (h : PlainText (c :: cs)) (hb : c ≠ ' ') (hc : c ≠ '#') {p : Position}
    (column : Nat) (barred : Bool) (hcol : least ≤ (p.behind gap).column)
    (hends : ∀ x, Yaml.endsWord false (marks p (gap ++ x)) = true)
    (hbetween : ∀ x, between (marks p (gap ++ c :: x)) = some (between', marks (p.behind gap) (c :: x)))
    (hnext : plainFrom false least fuel
        (marks (p.behind gap) (Writer.plainFrom indent column barred (c :: cs) ++ rest)) =
      (c :: cs, marks ((p.behind gap).behind (Writer.plainFrom indent column barred (c :: cs))) rest)) :
    plainFrom false least (fuel + 1) (marks p (gap ++ Writer.plainFrom indent column barred (c :: cs) ++ rest)) =
      (between' ++ c :: cs, marks (p.behind (gap ++ Writer.plainFrom indent column barred (c :: cs))) rest) := by
  have hgoes := h.goesOn hb hc hcol indent column barred rest
  have hgap := hbetween (Writer.plainFrom indent (column + 1) false cs ++ rest)
  rw [← List.cons_append, ← plainFrom_cons hb indent column barred] at hgap
  rw [List.append_assoc, plainFrom_gap (hends _) hgap hgoes, hnext, Position.behind_append]

theorem endsWord_of_isGap {p : Position} (hc : isGap c = true) (flow : Bool) (x : List Char) :
    endsWord flow (marks p (c :: x)) = true := by
  simp [marks, endsWord, hc]

theorem plainReads_char (ih : PlainReads least indent rest cs) (h : PlainText (c :: cs)) (hb : c ≠ ' ') :
    PlainReads least indent rest (c :: cs) := by
  intro n column barred p fuel hn hp hf
  rcases Nat.eq_zero_or_pos n with rfl | hpos
  · simpa using ih.word h hb column barred p fuel hp (by simpa using hf)
  · -- The blanks part this word from the one before.
    obtain ⟨k, rfl⟩ : ∃ k, n = k + 1 := ⟨n - 1, by omega⟩
    obtain ⟨fuel, rfl⟩ : ∃ k, fuel = k + 1 := ⟨fuel - 1, by omega⟩
    have hc : c ≠ '#' := fun he => (hn hpos).2.2 (by rw [he]; rfl)
    have hbreak := isBreak_of_isOrdinary (h.ordinary c List.mem_cons_self).1 (h.ordinary c List.mem_cons_self).2
    have hcol : least ≤ (p.behind (List.replicate (k + 1) ' ')).column := by
      rw [Position.behind_blanks]
      simp only
      omega
    have hword := ih.word h hb column barred (p.behind (List.replicate (k + 1) ' ')) fuel (Nat.le_succ_of_le hcol) (by
      simp only [List.length_append, List.length_replicate] at hf ⊢
      omega)
    exact plainFrom_afterGap h hb hc column barred hcol (fun _ => endsWord_of_isGap rfl false _)
      (fun _ => between_blanks hb hbreak p hpos) hword

/-- Where a line is broken, the break is read as a blank. -/
theorem PlainReads.newLine (ih : PlainReads least indent rest (c :: cs)) (hi : 0 < indent) (hl : least ≤ indent)
    (h : PlainText (c :: cs)) (hb : c ≠ ' ') (hc : c ≠ '#') (p : Position) (fuel : Nat)
    (hf : (newLine indent ++ Writer.plainFrom indent indent true (c :: cs) ++ rest).length < fuel) :
    plainFrom false least fuel (marks p (newLine indent ++ Writer.plainFrom indent indent true (c :: cs) ++ rest)) =
      (' ' :: c :: cs, marks (p.behind (newLine indent ++ Writer.plainFrom indent indent true (c :: cs))) rest) := by
  obtain ⟨fuel, rfl⟩ : ∃ k, fuel = k + 1 := ⟨fuel - 1, by omega⟩
  have hbreak := isBreak_of_isOrdinary (h.ordinary c List.mem_cons_self).1 (h.ordinary c List.mem_cons_self).2
  have hcol : least ≤ (p.behind (Writer.newLine indent)).column := by
    rw [Writer.newLine, ← List.singleton_append, Position.behind_append, Position.behind_blanks]
    exact Nat.le_add_left_of_le hl
  have hword := ih 0 indent true (p.behind (Writer.newLine indent)) fuel nofun (Nat.le_succ_of_le hcol) (by
    simp only [List.length_append, Writer.newLine, List.length_cons, List.replicate_zero, List.nil_append] at hf ⊢
    omega)
  exact plainFrom_afterGap h hb hc indent true hcol (fun _ => endsWord_of_isGap rfl false _)
    (fun _ => between_newLine hb hbreak p hi) hword

theorem plainReads_blank (hi : 0 < indent) (hl : least ≤ indent) (ih : PlainReads least indent rest cs)
    (h : PlainText (' ' :: cs)) : PlainReads least indent rest (' ' :: cs) := by
  have hne : cs ≠ [] := by
    rintro rfl
    exact (h.last ' ' rfl).1 rfl
  have hhash : cs.head? ≠ some '#' := fun hh => absurd (hasPair_head h.comment rfl hh) (by decide)
  intro n column barred p fuel hn hp hf
  by_cases hbreak : breaksAt barred column cs = true
  · obtain ⟨hbar, -, hb⟩ := of_breaksAt hbreak
    obtain rfl : n = 0 := Nat.eq_zero_of_not_pos fun h => absurd (hn h).1 (by simp [hbar])
    have hself : Writer.plainFrom indent column barred (' ' :: cs) =
        newLine indent ++ Writer.plainFrom indent indent true cs := by
      rw [Writer.plainFrom, if_pos rfl, if_pos hbreak]
    rw [List.replicate_zero, List.nil_append, hself] at hf ⊢
    obtain ⟨d, r, rfl⟩ := List.exists_cons_of_ne_nil hne
    exact ih.newLine hi hl h.tail (fun hd => hb (congrArg some hd)) (fun hd => hhash (congrArg some hd)) p fuel hf
  · have hself : Writer.plainFrom indent column barred (' ' :: cs) =
        ' ' :: Writer.plainFrom indent (column + 1) true cs := by
      rw [Writer.plainFrom, if_pos rfl, if_neg hbreak]
    have hmore : List.replicate n ' ' ++ Writer.plainFrom indent column barred (' ' :: cs) =
        List.replicate (n + 1) ' ' ++ Writer.plainFrom indent (column + 1) true cs := by
      rw [hself, List.replicate_succ', List.append_assoc]
      rfl
    rw [hmore] at hf ⊢
    rw [ih (n + 1) _ _ _ _ (fun _ => ⟨rfl, hne, hhash⟩) hp hf, List.replicate_succ', List.append_assoc]
    rfl

theorem plainReads (hi : 0 < indent) (hl : least ≤ indent) (he : Ends least rest) (h : PlainText cs) :
    PlainReads least indent rest cs := by
  induction cs with
  | nil => exact plainReads_nil he
  | cons c cs ih =>
    by_cases hb : c = ' '
    · subst hb
      exact plainReads_blank hi hl (ih h.tail) h
    · exact plainReads_char (ih h.tail) h hb

end Reads

theorem ordinary_plainFrom (ho : Ordinary cs) (indent column : Nat) (barred : Bool) :
    Ordinary (Writer.plainFrom indent column barred cs) := by
  induction cs generalizing column barred with
  | nil => exact .nil
  | cons c cs ih =>
    obtain ⟨hc, ho⟩ := List.forall_mem_cons.1 ho
    rw [Writer.plainFrom]
    split
    · split
      · exact .append (.newLine indent) (ih ho _ _)
      · exact .cons (by decide) (ih ho _ _)
    · exact .cons hc (ih ho _ _)

/-- **A plain text reads back.** -/
theorem plain_plainFrom {indent : Nat} (column : Nat) (hi : 0 < indent) (hl : least ≤ indent) (he : Ends least rest)
    {s : String} (h : PlainText s.toList) (p : Position) (hp : least ≤ p.column + 1) (fuel : Nat)
    (hf : (Writer.plainFrom indent column true s.toList ++ rest).length < fuel) :
    plain false least fuel (marks p (Writer.plainFrom indent column true s.toList ++ rest)) =
      (s, marks (p.behind (Writer.plainFrom indent column true s.toList)) rest) := by
  have hr := plainReads hi hl he h 0 column true p fuel nofun hp (by simpa using hf)
  simp only [List.replicate_zero, List.nil_append] at hr
  rw [plain, hr]
  simp only [String.ofList_toList]

/-! ## What follows a plain scalar -/

theorem ends_newline (h : Below least rest) : Ends least ('\n' :: rest) := by
  intro p
  refine ⟨endsWord_of_isGap rfl false rest, fun gap next hb => ?_⟩
  have hs : skipSpaces (marks p ('\n' :: rest)) = marks p ('\n' :: rest) := by simp [skipSpaces, marks]
  rw [between, hs] at hb
  simp only [marks, show isBreak '\n' = true from rfl, if_true, Position.after_newline] at hb
  split at hb
  · cases hb
  · rcases h with rfl | ⟨k, c, r, rfl, hk, hc, -, hbreak⟩
    · cases hb
      rfl
    · rw [breaksBetween_blanks hc hbreak] at hb
      cases hb
      have hcol : ¬ least ≤ k := by omega
      simp [goesOn, marks, Position.behind_blanks, hcol]

theorem ends_colon (hc : isGap c = true) : Ends least (':' :: c :: rest) := by
  intro p
  refine ⟨by simp [marks, endsWord, atGap, hc], fun gap next hb => ?_⟩
  simp [between, skipSpaces, marks, isBreak] at hb

/-! ## Which texts are plain -/

theorem plainText_of_allowsPlain {s : String} (h : allowsPlain s = true) : PlainText s.toList := by
  simp only [allowsPlain, Bool.and_eq_true, decide_eq_true_eq, Bool.not_eq_true', List.all_eq_true] at h
  obtain ⟨⟨⟨⟨⟨⟨-, ho⟩, hn⟩, -⟩, hl⟩, hs⟩, hm⟩ := h
  generalize s.toList = cs at *
  simp only [hasMarkInside, Bool.or_eq_false_iff] at hm
  obtain ⟨⟨hcolon, hend⟩, hcomment⟩ := hm
  have hgap : ∀ c : Char, decide (c = ' ') = true → (isGap c || decide (c = '\x00')) = true := by
    intro c hc
    rw [of_decide_eq_true hc]
    rfl
  constructor
  · intro c hc
    refine ⟨ho c hc, ?_⟩
    rintro rfl
    simp [hc] at hn
  · -- A colon at the start is a mark, any other one stands inside.
    cases cs with
    | nil => rfl
    | cons c r =>
      cases r with
      | nil => rfl
      | cons d r =>
        have hin := hasPair_mono (fun _ => id) hgap hcolon
        simp only [startsAsMark, Bool.or_eq_false_iff] at hs
        have hc : ¬ (c = ':' ∧ d = ' ') := by
          rintro ⟨rfl, rfl⟩
          simp [isGap] at hs
        exact Bool.or_eq_false_iff.2 ⟨by simpa using hc, hin⟩
  · exact hasPair_mono hgap (fun _ => id) hcomment
  · intro c hc
    constructor
    · rintro rfl
      simp [hc, isEdge] at hl
    · rintro rfl
      cases cs with
      | nil => cases hc
      | cons d r =>
        cases r with
        | nil =>
          obtain rfl : d = ':' := by simpa using hc
          simp [startsAsMark] at hs
        | cons e r => simp [hc] at hend

/-! ## How a plain text begins -/

/-- The characters that never begin a plain text. -/
def startMarks : List Char :=
  ['#', ',', '[', ']', '\x7b', '\x7d', '&', '*', '!', '|', '>', '\'', '"', '%', '@', '\x60']

/-- A text `c :: cs` that is taken for a plain scalar. -/
structure PlainScalar (c : Char) (cs : List Char) : Prop where
  text : PlainText (c :: cs)
  notBlank : c ≠ ' '
  notMark : c ∉ startMarks
  /-- What might be an indicator on its own is part of a word. -/
  notAlone : c = '?' ∨ c = ':' ∨ c = '-' → ∃ d r, cs = d :: r ∧ d ≠ ' '

theorem PlainScalar.begins {c : Char} {cs : List Char} (h : PlainScalar c cs) : Begins c := by
  have hord := h.text.ordinary c List.mem_cons_self
  refine ⟨h.notBlank, fun hc => h.notMark ?_, isBreak_of_isOrdinary hord.1 hord.2⟩
  rw [hc]
  decide

theorem PlainScalar.atGap {c : Char} {cs : List Char} (h : PlainScalar c cs) (hc : c = '?' ∨ c = ':' ∨ c = '-')
    (p : Position) (indent column : Nat) (barred : Bool) (rest : List Char) :
    atGap (marks p (Writer.plainFrom indent column barred cs ++ rest)) = false := by
  obtain ⟨d, r, rfl, hd⟩ := h.notAlone hc
  rw [plainFrom_cons hd]
  exact h.text.tail.isGap_head hd

theorem exists_plainScalar {s : String} (h : allowsPlain s = true) : ∃ c cs, s.toList = c :: cs ∧ PlainScalar c cs := by
  have ht := plainText_of_allowsPlain h
  simp only [allowsPlain, Bool.and_eq_true, decide_eq_true_eq, Bool.not_eq_true'] at h
  obtain ⟨⟨⟨⟨⟨⟨hk, -⟩, -⟩, hh⟩, -⟩, hs⟩, -⟩ := h
  cases hcs : s.toList with
  | nil =>
    obtain rfl : s = "" := String.toList_injective hcs
    exact absurd hk (by decide)
  | cons c cs =>
    rw [hcs] at ht hh hs
    simp only [startsAsMark, Bool.or_eq_false_iff] at hs
    refine ⟨c, cs, rfl, ht, ?_, ?_, fun hc => ?_⟩
    · rintro rfl
      simp [isEdge] at hh
    · have hset : startMarks = "#,[]\x7b\x7d&*!|>'\"%@\x60".toList := by decide
      rw [hset]
      simpa using hs.1.1.1
    · have halone := hs.1.1.2
      cases cs with
      | nil => exact absurd hc (by simpa [and_assoc] using halone)
      | cons d r =>
        refine ⟨d, r, rfl, ?_⟩
        rintro rfl
        exact absurd hc (by simpa [isGap, and_assoc] using halone)

/-- A word without any character that may have a meaning of its own. -/
def IsName (s : String) : Prop :=
  s ≠ "" ∧ ∀ c ∈ s.toList, isOrdinary c = true ∧ c ∉ ['\n', ' ', '?', ':', '-', '.'] ++ startMarks

instance (s : String) : Decidable (IsName s) :=
  @instDecidableAnd _ _ inferInstance
    (List.decidableBAll (fun c => isOrdinary c = true ∧ c ∉ ['\n', ' ', '?', ':', '-', '.'] ++ startMarks) s.toList)

theorem IsName.exists_plainScalar {s : String} (h : IsName s) :
    ∃ c cs, s.toList = c :: cs ∧ PlainScalar c cs ∧ c ≠ '-' ∧ c ≠ '.' := by
  have hmem : ∀ c ∈ s.toList, isOrdinary c = true ∧
      (c ≠ '\n' ∧ c ≠ ' ' ∧ c ≠ '?' ∧ c ≠ ':' ∧ c ≠ '-' ∧ c ≠ '.') ∧ c ∉ startMarks := by
    simpa only [List.mem_append, not_or, List.mem_cons, List.not_mem_nil, or_false, ne_eq] using h.2
  cases hcs : s.toList with
  | nil => exact absurd (String.toList_injective hcs) h.1
  | cons c cs =>
    rw [hcs] at hmem
    obtain ⟨-, hc, hind⟩ := hmem c List.mem_cons_self
    refine ⟨c, cs, rfl, ⟨⟨fun d hd => ⟨(hmem d hd).1, (hmem d hd).2.1.1⟩, ?_, ?_, fun d hd => ?_⟩, hc.2.1, hind, ?_⟩,
      hc.2.2.2.2.1, hc.2.2.2.2.2⟩
    · exact hasPair_of_forall fun d hd => decide_eq_false (hmem d hd).2.1.2.2.2.1
    · exact hasPair_of_forall fun d hd => decide_eq_false (hmem d hd).2.1.2.1
    · have hd := (hmem d (List.mem_of_getLast? hd)).2.1
      exact ⟨hd.2.1, hd.2.2.2.1⟩
    · rintro (rfl | rfl | rfl)
      · exact absurd rfl hc.2.2.1
      · exact absurd rfl hc.2.2.2.1
      · exact absurd rfl hc.2.2.2.2.1

theorem IsName.behind {k : String} (h : IsName k) (p : Position) :
    p.behind k.toList = ⟨p.index + k.length, p.line, p.column + k.length⟩ := by
  obtain ⟨c, cs, hcs, hp, -⟩ := h.exists_plainScalar
  rw [Position.behind_ordinary fun d hd => hp.text.ordinary d (hcs ▸ hd), String.length_toList]

theorem plainFrom_of_not_mem {cs : List Char} (h : ' ' ∉ cs) (indent column : Nat) (barred : Bool) :
    Writer.plainFrom indent column barred cs = cs := by
  induction cs generalizing column barred with
  | nil => rfl
  | cons c cs ih =>
    rw [List.mem_cons, not_or] at h
    rw [plainFrom_cons (Ne.symm h.1), ih h.2]

end ExemptZones.Yaml
