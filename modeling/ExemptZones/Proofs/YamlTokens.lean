import ExemptZones.Proofs.YamlPlain
import ExemptZones.Proofs.YamlQuoted
import ExemptZones.Yaml.Token.Lexer

/-
The tokens of what is written, one after another. Between tokens the state of the lexer is one of a few: what matters of
it are the tokens so far, the open blocks, and whether a key may begin; what it says of candidates for keys is used up
before the line ends.

`Leads`: reading goes on from one state and text as from another, with fuel for what is left.
`leads_text`: so it does past a text, in whatever style it is written, and `leads_key` past a key and its colon.
`leads_blockEnd`: in front of a line further out a block is at its end.
-/

namespace ExemptZones.Yaml

open Writer

namespace Lexer

/-! ## Going on -/

/-- With fuel for the rest of the text, reading goes on from one place as from another. -/
def Leads (s : Lexer) (ms : List Mark) (s' : Lexer) (ms' : List Mark) : Prop :=
  ∀ fuel, ms.length < fuel → ∃ fuel', ms'.length < fuel' ∧ run fuel s ms = run fuel' s' ms'

theorem Leads.refl (s : Lexer) (ms : List Mark) : Leads s ms s ms := fun fuel h => ⟨fuel, h, rfl⟩

theorem Leads.trans {s s' s'' : Lexer} {ms ms' ms'' : List Mark} (h : Leads s ms s' ms') (h' : Leads s' ms' s'' ms'') :
    Leads s ms s'' ms'' := by
  intro fuel hf
  obtain ⟨fuel', hf', he⟩ := h fuel hf
  obtain ⟨fuel'', hf'', he'⟩ := h' fuel' hf'
  exact ⟨fuel'', hf'', he.trans he'⟩

/-- What is skipped does not matter. -/
theorem leads_of_skip {s s' : Lexer} {ms ms' : List Mark} (h : skip false s ms = skip false s' ms')
    (hl : ms'.length ≤ ms.length) : Leads s ms s' ms' := by
  intro fuel hf
  obtain ⟨fuel, rfl⟩ : ∃ n, fuel = n + 1 := ⟨fuel - 1, by omega⟩
  exact ⟨fuel + 1, by omega, by rw [run, run, h]⟩

theorem skip_of_begins {m : Mark} (h : Begins m.char) (s : Lexer) (r : List Mark) :
    skip false s (m :: r) = (s, m :: r) := by
  simp [skip, h.1, h.2.1, h.2.2]

theorem leads_token {m : Mark} {r rest : List Mark} {s s' s'' : Lexer} (hm : Begins m.char)
    (hd : s.dropStale m.pos = .ok s')
    (ht : ∀ fuel, r.length < fuel → (s'.unwind m.pos.column).token fuel m r = .ok (s'', rest))
    (hl : rest.length ≤ r.length) : Leads s (m :: r) s'' rest := by
  intro fuel hf
  obtain ⟨fuel, rfl⟩ : ∃ n, fuel = n + 1 := ⟨fuel - 1, by omega⟩
  simp only [List.length_cons] at hf
  refine ⟨fuel, by omega, ?_⟩
  rw [run, skip_of_begins hm]
  simp only [hd, bind, Except.bind, ht fuel (by omega)]

/-! ## States outside brackets -/

/-- A state outside brackets. -/
def base (ts : List Token) (is : List Nat) (allowed : Bool) (o : Option Candidate) : Lexer :=
  ⟨ts, ts.length, is, allowed, o, []⟩

/-- No open block stands further in than a column. -/
def Inside (is : List Nat) (column : Nat) : Prop :=
  ∀ i ∈ is.head?, i ≤ column

section States

variable {ts : List Token} {is : List Nat} {allowed : Bool} {o : Option Candidate} {p : Position}

theorem unwind_of_inside {column : Nat} (h : Inside is column) :
    (base ts is allowed o).unwind column = base ts is allowed o := by
  have hw : is.takeWhile (column < ·) = [] ∧ is.dropWhile (column < ·) = is := by
    cases is with
    | nil => exact ⟨rfl, rfl⟩
    | cons i is =>
      have hi : ¬ column < i := Nat.not_lt.2 (h i rfl)
      simp [hi]
  simp [unwind, endBlocks, inFlow, base, hw]

theorem dropStale_none : (base ts is allowed none).dropStale p = .ok (base ts is allowed none) := rfl

/-- Nothing seen so far has to be a key. -/
def Free (o : Option Candidate) : Prop :=
  ∀ c ∈ o, c.isRequired = false

/-- The candidate is on an earlier line and need not be a key. -/
def Passes (o : Option Candidate) (line : Nat) : Prop :=
  ∀ c ∈ o, c.isRequired = false ∧ c.pos.line ≤ line

theorem dropStale_passes {line : Nat} (h : Passes o line) (hp : line < p.line) :
    (base ts is allowed o).dropStale p = .ok (base ts is allowed none) := by
  cases o with
  | none => rfl
  | some c =>
    obtain ⟨hr, hl⟩ := h c rfl
    have hs : Candidate.isStale c p = true := by
      simp only [Candidate.isStale, Bool.or_eq_true, decide_eq_true_eq]
      exact .inl (by omega)
    simp [dropStale, base, hs, hr, fresh]

/-! ## From one line to the next -/

theorem skip_blanks (s : Lexer) (p : Position) (n : Nat) (cs : List Char) :
    skip false s (marks p (List.replicate n ' ' ++ cs)) =
      skip false s (marks (p.behind (List.replicate n ' ')) cs) := by
  induction n generalizing p with
  | zero => rfl
  | succ n ih =>
    rw [List.replicate_succ, List.cons_append, marks]
    simpa [skip, isBreak, Position.behind] using ih (p.after ' ')

/-- Past the blanks at the beginning of a line. -/
theorem leads_blanks (s : Lexer) (p : Position) (n : Nat) (cs : List Char) :
    Leads s (marks p (List.replicate n ' ' ++ cs)) s (marks (p.behind (List.replicate n ' ')) cs) :=
  leads_of_skip (skip_blanks s p n cs) (by simp [length_marks])

theorem skip_newline (p : Position) (cs : List Char) :
    skip false (base ts is allowed o) (marks p ('\n' :: cs)) =
      skip false (base ts is true o) (marks (p.after '\n') cs) := by
  simp [marks, skip, isBreak, base, inFlow]

theorem endBlocks_cons {ended : Nat → Bool} {d : Nat} (h : ended d = true) :
    (base ts (d :: is) allowed o).endBlocks ended = (base (.blockEnd :: ts) is allowed o).endBlocks ended := by
  have hcomm : ∀ gone : List Nat, Token.blockEnd :: (gone.map (fun _ => Token.blockEnd) ++ ts) =
      gone.map (fun _ => Token.blockEnd) ++ .blockEnd :: ts := by
    intro gone
    induction gone with
    | nil => rfl
    | cons _ gone ih => rw [List.map_cons, List.cons_append, List.cons_append, ih]
  simp only [endBlocks, base, List.takeWhile_cons, List.dropWhile_cons, h, if_true, List.map_cons, List.cons_append,
    hcomm, List.length_cons, Lexer.mk.injEq, true_and, and_true]
  omega

/-- In front of a line further out, or of nothing, the innermost block is at its end. -/
theorem leads_blockEnd {d : Nat} {cs : List Char} (hp : p.column = 0) (hb : Below d cs) :
    Leads (base ts (d :: is) true none) (marks p cs) (base (.blockEnd :: ts) is true none) (marks p cs) := by
  intro fuel hf
  obtain ⟨fuel, rfl⟩ : ∃ n, fuel = n + 1 := ⟨fuel - 1, by omega⟩
  refine ⟨fuel + 1, hf, ?_⟩
  rcases hb with rfl | ⟨k, c, r, rfl, hk, hc⟩
  · have he : (base ts (d :: is) true none).unwindAll = (base (.blockEnd :: ts) is true none).unwindAll :=
      endBlocks_cons rfl
    simp only [run, marks, skip, he]
  · have he : (base ts (d :: is) true none).unwind k = (base (.blockEnd :: ts) is true none).unwind k :=
      endBlocks_cons (decide_eq_true hk)
    have hcol : (p.behind (List.replicate k ' ')).column = k := by rw [Position.behind_blanks, hp, Nat.zero_add]
    rw [run, run, skip_blanks, skip_blanks, marks, skip_of_begins (m := ⟨c, _⟩) hc, skip_of_begins (m := ⟨c, _⟩) hc]
    simp only [dropStale_none, hcol, bind, Except.bind, he]

/-- A line ends: a key may begin, and a candidate on it is given up. -/
theorem leads_newline {n : Nat} {cs : List Char} (ho : Passes o p.line) (hb : Below n cs) :
    Leads (base ts is allowed o) (marks p ('\n' :: cs)) (base ts is true none) (marks (p.after '\n') cs) := by
  intro fuel hf
  obtain ⟨fuel, rfl⟩ : ∃ n, fuel = n + 1 := ⟨fuel - 1, by omega⟩
  refine ⟨fuel + 1, Nat.lt_of_succ_lt hf, ?_⟩
  rw [run, run, skip_newline]
  rcases hb with rfl | ⟨k, c, r, rfl, hk, hc⟩
  · simp only [marks, skip]
    cases o with
    | none => rfl
    | some c =>
      have hr := (ho c rfl).1
      simp [unwindAll, inFlow, base, endBlocks, dropCandidate, candidate, hr, setCandidate]
  · have hline : p.line < ((p.after '\n').behind (List.replicate k ' ')).line := by
      rw [Position.behind_blanks, Position.after_newline]
      exact Nat.lt_succ_self _
    rw [skip_blanks, skip_blanks, marks, skip_of_begins (m := ⟨c, _⟩) hc, skip_of_begins (m := ⟨c, _⟩) hc]
    simp only [dropStale_passes ho hline, dropStale_none]

/-- At the end of a text outside all blocks, the tokens are those that were read. -/
theorem run_end (ho : Free o) {fuel : Nat} (hf : 0 < fuel) : run fuel (base ts [] allowed o) [] = .ok ts.reverse := by
  obtain ⟨fuel, rfl⟩ : ∃ n, fuel = n + 1 := ⟨fuel - 1, by omega⟩
  cases o with
  | none => rfl
  | some c =>
    have hr := ho c rfl
    simp [run, skip, unwindAll, inFlow, base, endBlocks, dropCandidate, candidate, hr, setCandidate]
    rfl

/-! ## Tokens -/

theorem isTriple_ne {m : Mark} {c : Char} (h : m.char ≠ c) (r : List Mark) : isTriple c (m :: r) = false := by
  cases r with
  | nil => rfl
  | cons x r => cases r <;> simp [isTriple, h]

/-- What is saved as a candidate for a key at a position. -/
def saved (ts : List Token) (is : List Nat) (allowed : Bool) (p : Position) : Option Candidate :=
  if allowed then some ⟨ts.length, p, is.head? = some p.column⟩ else none

/-- A scalar, or anything else that can be a key. -/
theorem leads_atom {m : Mark} {r rest : List Mark} {t : Token} (hm : Begins m.char) (hi : Inside is m.pos.column)
    (ht : ∀ fuel, r.length < fuel →
      (base ts is allowed none).token fuel m r = ((base ts is allowed none).atom t m.pos).map (·, rest))
    (hl : rest.length ≤ r.length) :
    Leads (base ts is allowed none) (m :: r) (base (t :: ts) is false (saved ts is allowed m.pos)) rest := by
  refine leads_token hm dropStale_none (fun fuel hf => ?_) hl
  rw [unwind_of_inside hi, ht fuel hf]
  cases allowed <;> rfl

/-- What the token of a block does where the block is at a column: it is open already, or opens. -/
inductive Enters (t : Token) (d : Nat) : List Token → List Nat → List Token → List Nat → Prop where
  | inside {ts : List Token} {is : List Nat} : Enters t d ts (d :: is) ts (d :: is)
  | opens {ts : List Token} {is : List Nat} (h : ∀ i ∈ is.head?, i < d) : Enters t d ts is (t :: ts) (d :: is)

theorem Enters.isInside {t : Token} {d : Nat} {ts' : List Token} {is' : List Nat} (h : Enters t d ts is ts' is') :
    Inside is d := by
  cases h with
  | inside =>
    intro i hi
    cases hi
    exact Nat.le_refl d
  | opens h => exact fun i hi => Nat.le_of_lt (h i hi)

theorem insert_append (us ts : List Token) (t : Token) :
    (base (us ++ ts) is allowed o).insert ts.length t = base (us ++ t :: ts) is allowed o := by
  simp [insert, base, Nat.add_assoc]

theorem Enters.openBlock {t : Token} {d : Nat} {ts' : List Token} {is' : List Nat} (h : Enters t d ts is ts' is')
    (us : List Token) (allowed : Bool) (o : Option Candidate) :
    (base (us ++ ts) is allowed o).openBlock d ts.length t = base (us ++ ts') is' allowed o := by
  cases h with
  | inside => simp [Lexer.openBlock, opensBlock, base]
  | opens h =>
    have ho : (base (us ++ ts) is allowed o).opensBlock d = true := by
      cases is with
      | nil => rfl
      | cons i is => exact decide_eq_true (h i rfl)
    rw [Lexer.openBlock, if_pos ho, insert_append]
    rfl

/-- The dash of an item. -/
theorem leads_dash {ts' : List Token} {is' : List Nat} (h : Enters .blockListStart p.column ts is ts' is')
    (cs : List Char) :
    Leads (base ts is true none) (marks p ('-' :: ' ' :: cs)) (base (.blockEntry :: ts') is' true none)
      (marks (p.after '-') (' ' :: cs)) := by
  refine leads_token (show Begins '-' by decide) dropStale_none (fun fuel _ => ?_) (Nat.le_refl _)
  have hg : atGap (marks (p.after '-') (' ' :: cs)) = true := rfl
  have ht : isTriple '-' (⟨'-', p⟩ :: marks (p.after '-') (' ' :: cs)) = false := by
    cases cs <;> simp [marks, isTriple]
  have he : (base ts is true none).blockEntry p = .ok (base (.blockEntry :: ts') is' true none) := by
    have ho : (base ts is true none).openBlock p.column (base ts is true none).count .blockListStart =
        base ts' is' true none := h.openBlock [] true none
    have hf : (base ts is true none).inFlow = false := rfl
    have hk : (base ts is true none).keyAllowed = true := rfl
    simp only [blockEntry, hf, hk, ho]
    rfl
  rw [unwind_of_inside h.isInside]
  simp [token, ht, isTriple_ne, hg, he, Except.map]

/-- The colon behind a key. -/
theorem leads_colon {ts' : List Token} {is' : List Nat} {c : Candidate} {t : Token} {g : Char}
    (h : Enters .blockMapStart c.pos.column ts is ts' is') (hn : c.number = ts.length) (hg : isGap g = true)
    (hi : Inside is p.column) (hs : Candidate.isStale c p = false) (cs : List Char) :
    Leads (base (t :: ts) is false (some c)) (marks p (':' :: g :: cs))
      (base (.value :: t :: .key :: ts') is' false none) (marks (p.after ':') (g :: cs)) := by
  have hd : (base (t :: ts) is false (some c)).dropStale p = .ok (base (t :: ts) is false (some c)) := by
    simp [dropStale, base, hs, fresh]
  refine leads_token (show Begins ':' by decide) hd (fun fuel _ => ?_) (Nat.le_refl _)
  have hgap : atGap (marks (p.after ':') (g :: cs)) = true := hg
  have hv : (base (t :: ts) is false (some c)).value p = .ok (base (.value :: t :: .key :: ts') is' false none) := by
    have hk : (base (t :: ts) is false none).insert ts.length .key = base (t :: .key :: ts) is false none :=
      insert_append [t] ts .key
    have ho := h.openBlock [t, .key] false none
    have hf : (base (t :: .key :: ts) is false none).inFlow = false := rfl
    have hc : (base (t :: ts) is false (some c)).setCandidate none = base (t :: ts) is false none := rfl
    have hcand : (base (t :: ts) is false (some c)).candidate = some c := rfl
    simp only [List.cons_append, List.nil_append] at ho
    rw [value, hcand]
    simp only [hc, hn, hk, hf, ho]
    rfl
  rw [unwind_of_inside hi]
  simp [token, isTriple_ne, hgap, hv, Except.map]

/-! ## Scalars -/

theorem token_single (s : Lexer) (fuel : Nat) (r : List Mark) :
    s.token fuel ⟨'\'', p⟩ r = (single r).bind fun (t, rest) => (s.atom (.scalar t false) p).map (·, rest) := by
  simp [token, isTriple_ne]
  rfl

theorem token_double (s : Lexer) (fuel : Nat) (r : List Mark) :
    s.token fuel ⟨'"', p⟩ r = (double r).bind fun (t, rest) => (s.atom (.scalar t false) p).map (·, rest) := by
  simp [token, isTriple_ne]
  rfl

/-- A plain scalar, which its first character and what follows show to be one. -/
theorem token_plain {c : Char} {r : List Mark} (hg : isGap c = false) (hc : c ∉ startMarks)
    (ha : c = '?' ∨ c = ':' ∨ c = '-' → atGap r = false) (h0 : p.column = 0 → c ≠ '-' ∧ c ≠ '.') (fuel : Nat) :
    (base ts is allowed o).token fuel ⟨c, p⟩ r =
      let (t, rest) := plain false (base ts is allowed o).least (fuel + 1) (⟨c, p⟩ :: r)
      ((base ts is allowed o).atom (.scalar (.plain t) true) p).map (·, rest) := by
  have hf : (base ts is allowed o).inFlow = false := rfl
  have ht : ∀ d, d = '-' ∨ d = '.' → (decide (p.column = 0) && isTriple d (⟨c, p⟩ :: r)) = false := by
    intro d hd
    by_cases hp : p.column = 0
    · have hcd : c ≠ d := by
        rcases hd with rfl | rfl
        · exact (h0 hp).1
        · exact (h0 hp).2
      rw [isTriple_ne hcd, Bool.and_false]
    · simp [hp]
  have hgap : ∀ d, d = '?' ∨ d = ':' ∨ d = '-' → (decide (c = d) && atGap r) = false := by
    rintro d hd
    by_cases hcd : c = d
    · rw [ha (hcd ▸ hd), Bool.and_false]
    · simp [hcd]
  simp only [startMarks, List.mem_cons, List.not_mem_nil, or_false, not_or] at hc
  have hb : beginsPlain false c r = true := by
    rw [beginsPlain]
    by_cases hcd : c = '?' ∨ c = ':' ∨ c = '-'
    · rw [ha hcd]
      rcases hcd with rfl | rfl | rfl <;> rfl
    · simp only [not_or] at hcd
      simp [hg, hc, hcd]
  simp [token, hf, hc, ht, hgap, hb]

theorem least_le {column : Nat} (hi : Inside is column) : (base ts is allowed o).least ≤ column + 1 := by
  cases is with
  | nil => exact Nat.zero_le _
  | cons i is => exact Nat.succ_le_succ (hi i rfl)

theorem leads_plain {c : Char} {cs rest : List Char} {s : String} (hs : s.toList = c :: cs) (h : PlainScalar c cs)
    (hi : Inside is p.column) (h0 : p.column = 0 → c ≠ '-' ∧ c ≠ '.') {indent : Nat} (hindent : 0 < indent)
    (hl : (base ts is allowed none).least ≤ indent) (he : Ends (base ts is allowed none).least rest) (column : Nat) :
    Leads (base ts is allowed none) (marks p (Writer.plainFrom indent column true s.toList ++ rest))
      (base (.scalar (.plain s) true :: ts) is false (saved ts is allowed p))
      (marks (p.behind (Writer.plainFrom indent column true s.toList)) rest) := by
  have hgap := h.text.isGap_head h.notBlank
  have hread := fun fuel hf => plain_plainFrom column hindent hl he (hs ▸ h.text) p (least_le hi) fuel hf
  rw [hs, plainFrom_cons h.notBlank, List.cons_append, marks] at hread ⊢
  refine leads_atom h.begins hi (fun fuel hf => ?_) ?_
  · rw [length_marks] at hf
    rw [token_plain hgap h.notMark (fun hc => h.atGap hc _ _ _ _ _) h0, hread _ (Nat.succ_lt_succ hf)]
  · simp only [length_marks, List.length_append]
    omega

theorem leads_text {indent : Nat} (hi : Inside is p.column) (h0 : 0 < p.column)
    (hl : (base ts is allowed none).least ≤ indent) (hindent : 0 < indent) (hw : indent + 1 ≤ width) {rest : List Char}
    (hb : Below (base ts is allowed none).least rest) (column : Nat) (s : String) :
    Leads (base ts is allowed none) (marks p (text indent column s ++ '\n' :: rest))
      (base (.scalar (.plain s) (allowsPlain s) :: ts) is false (saved ts is allowed p))
      (marks (p.behind (text indent column s)) ('\n' :: rest)) := by
  unfold text
  cases hp : allowsPlain s with
  | true =>
    obtain ⟨c, cs, hs, h⟩ := exists_plainScalar hp
    exact leads_plain hs h hi (fun h => absurd h (Nat.ne_of_gt h0)) hindent hl (ends_newline hb) column
  | false =>
    simp only [Bool.false_eq_true, if_false]
    split
    · next hq =>
      rw [List.cons_append, marks]
      refine leads_atom (show Begins '\'' by decide) hi (fun fuel _ => ?_) ?_
      · rw [token_single, single_singleFrom _ hindent (by simp) hq]
        rfl
      · simp [length_marks]
    · rw [List.cons_append, marks]
      refine leads_atom (show Begins '"' by decide) hi (fun fuel _ => ?_) ?_
      · rw [token_double, double_doubleFrom _ hindent hw]
        rfl
      · simp [length_marks]

/-- The state behind an opening bracket. -/
def opened (ts : List Token) (is : List Nat) (o : Option Candidate) : Lexer :=
  ⟨ts, ts.length, is, true, o, [none]⟩

/-- Brackets with nothing between them, which `t` and `u` are the tokens of. -/
theorem leads_brackets {a b : Char} {t u : Token} (ha : Begins a) (hb : Begins b)
    (hopen : ∀ (s : Lexer) fuel r, s.token fuel ⟨a, p⟩ r = (s.openFlow t p).map (·, r))
    (hclose : ∀ (s : Lexer) fuel q r, s.token fuel ⟨b, q⟩ r = (s.closeFlow u).map (·, r))
    (hi : Inside is p.column) (hline : (p.after a).line = p.line ∧ (p.after a).index = p.index + 1) (rest : List Char) :
    Leads (base ts is allowed none) (marks p (a :: b :: rest)) (base (u :: t :: ts) is false (saved ts is allowed p))
      (marks ((p.after a).after b) rest) := by
  have hfirst : Leads (base ts is allowed none) (marks p (a :: b :: rest)) (opened (t :: ts) is (saved ts is allowed p))
      (marks (p.after a) (b :: rest)) := by
    refine leads_token ha dropStale_none (fun fuel _ => ?_) (Nat.le_refl _)
    rw [unwind_of_inside hi, hopen]
    cases allowed <;> rfl
  have hfresh : (opened (t :: ts) is (saved ts is allowed p)).dropStale (p.after a) =
      .ok (opened (t :: ts) is (saved ts is allowed p)) := by
    cases allowed with
    | false => rfl
    | true =>
      have hs : Candidate.isStale ⟨ts.length, p, is.head? = some p.column⟩ (p.after a) = false := by
        simp [Candidate.isStale, hline]
      simp [dropStale, opened, saved, fresh, hs]
  refine hfirst.trans (leads_token hb hfresh (fun fuel _ => ?_) (Nat.le_refl _))
  rw [hclose]
  rfl

/-- A key turns out to be one when its colon comes. -/
theorem leads_key {ts' : List Token} {is' : List Nat} {k : String} (h : Enters .blockMapStart p.column ts is ts' is')
    (hk : IsName k) (hlen : k.length ≤ 1024) {g : Char} (hg : isGap g = true) (cs : List Char) :
    Leads (base ts is true none) (marks p (k.toList ++ ':' :: g :: cs))
      (base (.value :: .scalar (.plain k) true :: .key :: ts') is' false none)
      (marks ((p.behind k.toList).after ':') (g :: cs)) := by
  obtain ⟨c, r, hcs, hp, h0⟩ := hk.exists_plainScalar
  have hblank : ' ' ∉ k.toList := fun hm => (hk.2 ' ' hm).2 (by decide)
  have hq := hk.behind p
  have hi := h.isInside
  have hscalar : Leads (base ts is true none)
      (marks p (Writer.plainFrom (p.column + 1) 0 true k.toList ++ ':' :: g :: cs)) _ _ :=
    leads_plain hcs hp hi (fun _ => h0) (Nat.succ_pos p.column) (least_le hi) (ends_colon hg) 0
  rw [plainFrom_of_not_mem hblank] at hscalar
  refine hscalar.trans (leads_colon h rfl hg ?_ ?_ cs)
  · intro i hm
    rw [hq]
    exact Nat.le_add_right_of_le (hi i hm)
  · simp [Candidate.isStale, hq, hlen]

end States

end Lexer

end ExemptZones.Yaml
