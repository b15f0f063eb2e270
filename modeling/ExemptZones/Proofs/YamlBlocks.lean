import ExemptZones.Proofs.YamlTokens

/-
Lists and maps, as they are written and as they are read. What an item or an entry holds stands further in, so where the
lines of a block are at their end, the next one stands further out, and the lexer says that the block ends.

`tokensOf`: the tokens of a value.
`Lexer.through_block`: a block is read as its parts are, whether they are items or entries.
`Plain.reads`: wherever a value stands in a document, its text is read as its tokens.
`tokens_document`: so is a whole document.
-/

namespace ExemptZones.Yaml

open Writer

/-! ## Values -/

/-- A text that can be a key as it stands: a name that spells a text, short enough to be found a key at its colon. -/
def IsKey (k : String) : Prop :=
  IsName k ∧ k.length ≤ 1024 ∧ Kind.ofText k = .text

instance (k : String) : Decidable (IsKey k) :=
  inferInstanceAs (Decidable (IsName k ∧ k.length ≤ 1024 ∧ Kind.ofText k = .text))

/-- Values nested at most so deep, of the kinds that a genesis state is made of: flags, texts, lists, and maps in which
no key is there twice. -/
inductive Plain : Nat → Value → Prop where
  | bool (n : Nat) (b : Bool) : Plain n (.bool b)
  | text (n : Nat) (s : String) : Plain n (.text s)
  | list {n : Nat} {vs : List Value} (hv : ∀ v ∈ vs, Plain n v) : Plain (n + 1) (.list vs)
  | object {n : Nat} {fs : List (String × Value)} (names : (fs.map (·.1)).Nodup) (keys : ∀ f ∈ fs, IsKey f.1)
      (hv : ∀ f ∈ fs, Plain n f.2) : Plain (n + 1) (.object fs)

/-! ## The tokens of a value -/

mutual

/-- The tokens of a value. Under a key a list stands at the column of the key, so no block begins with it. -/
def tokensOf (underKey : Bool) : Value → List Token
  | .text s => [.scalar (.plain s) (allowsPlain s)]
  | .bool true => [.scalar (.plain "true") true]
  | .bool false => [.scalar (.plain "false") true]
  | .list [] => [.flowListStart, .flowListEnd]
  | .list (v :: vs) => if underKey then itemTokens (v :: vs) else .blockListStart :: itemTokens (v :: vs) ++ [.blockEnd]
  | .map [] => [.flowMapStart, .flowMapEnd]
  | .map (e :: es) => .blockMapStart :: entryTokens (e :: es) ++ [.blockEnd]
  | _ => []

def itemTokens : List Value → List Token
  | [] => []
  | v :: vs => .blockEntry :: tokensOf false v ++ itemTokens vs

def entryTokens : List (Value × Value) → List Token
  | [] => []
  | (k, v) :: es => .key :: .scalar (.plain k.plain) true :: .value :: tokensOf true v ++ entryTokens es

end

/-- Values that a document can hold on one line. -/
inductive OneLine : Value → Prop where
  | text (s : String) : OneLine (.text s)
  | bool (b : Bool) : OneLine (.bool b)
  | list : OneLine (.list [])
  | map : OneLine (.map [])

namespace Lexer

section States

variable {ts : List Token} {is : List Nat} {allowed : Bool} {o : Option Candidate} {p : Position}

/-! ## Whole lines -/

theorem leads_inline {indent d : Nat} (hd : d < p.column) (hl : d < indent) (hw : indent + 1 ≤ width)
    {rest : List Char} (hb : Below (d + 1) rest) (column : Nat) {v : Value} (hv : OneLine v) (underKey : Bool) :
    Leads (base ts (d :: is) allowed none) (marks p (Writer.inline indent column v ++ '\n' :: rest))
      (base ((tokensOf underKey v).reverse ++ ts) (d :: is) false (saved ts (d :: is) allowed p))
      (marks (p.behind (Writer.inline indent column v)) ('\n' :: rest)) := by
  have hi : Inside (d :: is) p.column := by
    intro i h
    cases h
    exact Nat.le_of_lt hd
  cases hv with
  | text s => exact leads_text hi (Nat.zero_lt_of_lt hd) hl (Nat.zero_lt_of_lt hl) hw hb column s
  | bool b =>
    have hname : ∀ s, IsName s → Leads (base ts (d :: is) allowed none)
        (marks p (Writer.plainFrom indent column true s.toList ++ '\n' :: rest))
        (base (.scalar (.plain s) true :: ts) (d :: is) false (saved ts (d :: is) allowed p))
        (marks (p.behind (Writer.plainFrom indent column true s.toList)) ('\n' :: rest)) := fun s hs => by
      obtain ⟨c, cs, hcs, h, h0⟩ := hs.exists_plainScalar
      exact leads_plain hcs h hi (fun _ => h0) (Nat.zero_lt_of_lt hl) hl (ends_newline hb) column
    cases b with
    | true => exact hname "true" (by decide)
    | false => exact hname "false" (by decide)
  | list =>
    refine leads_brackets (by decide) (by decide) ?_ ?_ hi ⟨rfl, rfl⟩ _
    · intro s fuel r
      simp [token, isTriple_ne]
    · intro s fuel r q
      simp [token, isTriple_ne]
  | map =>
    refine leads_brackets (by decide) (by decide) ?_ ?_ hi ⟨rfl, rfl⟩ _
    · intro s fuel r
      simp [token, isTriple_ne]
    · intro s fuel r q
      simp [token, isTriple_ne]

/-- From `s` before `cs`, with which a line ends, reading goes on to `s'` before `rest`. -/
def Through (s : Lexer) (p : Position) (cs rest : List Char) (s' : Lexer) : Prop :=
  ∃ q : Position, q.column = 0 ∧ Leads s (marks p (cs ++ rest)) s' (marks q rest)

variable {s s' s'' : Lexer} {q : Position} {cs ds rest : List Char}

theorem Leads.through (cs : List Char) (h : Leads s (marks p (cs ++ (ds ++ rest))) s' (marks q (ds ++ rest)))
    (h' : Through s' q ds rest s'') : Through s p (cs ++ ds) rest s'' := by
  obtain ⟨q', hq, hl⟩ := h'
  exact ⟨q', hq, by simpa using h.trans hl⟩

theorem Through.append (h : Through s p cs (ds ++ rest) s')
    (h' : ∀ q : Position, q.column = 0 → Through s' q ds rest s'') : Through s p (cs ++ ds) rest s'' := by
  obtain ⟨q, hq, hl⟩ := h
  exact Leads.through cs hl (h' q hq)

theorem through_newline {m : Nat} (hb : Below m (ds ++ rest))
    (h : ∀ q : Position, q.column = 0 → Through (base ts is true none) q ds rest s'') :
    Through (base ts is allowed none) p ('\n' :: ds) rest s'' :=
  Leads.through ['\n'] (leads_newline (o := none) (fun _ hc => nomatch hc) hb) (h _ (by rw [Position.after_newline]))

/-- Behind the lines a block is at its end. -/
theorem Through.blockEnd {d : Nat} (h : Through s p cs rest (base ts (d :: is) true none)) (hb : Below d rest) :
    Through s p cs rest (base (.blockEnd :: ts) is true none) := by
  obtain ⟨q, hq, hl⟩ := h
  exact ⟨q, hq, hl.trans (leads_blockEnd hq hb)⟩

theorem through_inline {indent d : Nat} (hd : d < p.column) (hl : d < indent) (hw : indent + 1 ≤ width)
    (hb : Below (d + 1) rest) (column : Nat) {v : Value} (hv : OneLine v) (underKey : Bool) :
    Through (base ts (d :: is) allowed none) p (Writer.inline indent column v ++ ['\n']) rest
      (base ((tokensOf underKey v).reverse ++ ts) (d :: is) true none) := by
  have hpass : Passes (saved ts (d :: is) allowed p) (p.behind (Writer.inline indent column v)).line := by
    intro c hc
    cases allowed with
    | false => cases hc
    | true =>
      cases hc
      exact ⟨decide_eq_false fun h => Nat.ne_of_lt hd (Option.some.inj h), Position.line_le_behind p _⟩
  refine ⟨_, ?_, by simpa using (leads_inline hd hl hw hb column hv underKey).trans (leads_newline hpass hb)⟩
  rw [Position.after_newline]

/-! ## Blocks -/

/-- The parts of a block at column `d`, each on lines of its own: the items of a list, or the entries of a map. -/
def blockLines {α : Type} (d : Nat) (body : α → List Char) (xs : List α) : List Char :=
  xs.flatMap fun x => List.replicate d ' ' ++ body x

/-- Wherever `cs` is a part of a block at column `d`, which begins with the token `t`, it is read as `us`. -/
structure Part (t : Token) (d : Nat) (cs : List Char) (us : List Token) : Prop where
  begins : ∃ c r, cs = c :: r ∧ Begins c
  reads : ∀ {ts ts' : List Token} {is is' : List Nat} {p : Position} {rest : List Char}, p.column = d →
    Enters t d ts is ts' is' → Below (d + 1) rest →
    Through (base ts is true none) p cs rest (base (us.reverse ++ ts') is' true none)

section Blocks

variable {α : Type} {d : Nat} {t : Token} {body : α → List Char} {toks : α → List Token} {xs : List α} {x : α}

theorem drop_blockLines (d : Nat) (body : α → List Char) (x : α) (xs : List α) :
    (blockLines d body (x :: xs)).drop d = body x ++ blockLines d body xs := by
  rw [blockLines, List.flatMap_cons, List.append_assoc, List.drop_left' (List.length_replicate ..), blockLines]

theorem below_blockLines (h : ∀ x ∈ xs, Part t d (body x) (toks x)) (hb : Below (d + 1) rest) :
    Below (d + 1) (blockLines d body xs ++ rest) := by
  cases xs with
  | nil => exact hb
  | cons x xs =>
    obtain ⟨c, r, hx, hc⟩ := (h x List.mem_cons_self).begins
    refine .inr ⟨d, c, r ++ blockLines d body xs ++ rest, ?_, Nat.lt_succ_self d, hc⟩
    simp [blockLines, hx]

/-- The parts of a block that is open. The induction is on the parts, each of which leaves it open. -/
theorem through_blockLines (h : ∀ x ∈ xs, Part t d (body x) (toks x)) (hb : Below (d + 1) rest) (hp : p.column = 0) :
    Through (base ts (d :: is) true none) p (blockLines d body xs) rest
      (base ((xs.flatMap toks).reverse ++ ts) (d :: is) true none) := by
  induction xs generalizing ts p with
  | nil => exact ⟨p, hp, .refl _ _⟩
  | cons x xs ih =>
    have hxs := fun y hy => h y (List.mem_cons_of_mem _ hy)
    have hcol : (p.behind (List.replicate d ' ')).column = d := by rw [Position.behind_blanks, hp, Nat.zero_add]
    have hpart : Through (base ts (d :: is) true none) _ (body x) (blockLines d body xs ++ rest) _ :=
      (h x List.mem_cons_self).reads hcol .inside (below_blockLines hxs hb)
    have hall := hpart.append fun q hq => ih hxs hq
    rw [blockLines, List.flatMap_cons, List.append_assoc]
    refine Leads.through _ (leads_blanks _ _ _ _) ?_
    simpa [blockLines] using hall

/-- A whole block, from its first part on. -/
theorem through_block (h : ∀ y ∈ x :: xs, Part t d (body y) (toks y)) (hi : ∀ i ∈ is.head?, i < d)
    (hb : Below d rest) (hp : p.column = d) :
    Through (base ts is true none) p ((blockLines d body (x :: xs)).drop d) rest
      (base ((t :: (x :: xs).flatMap toks ++ [Token.blockEnd]).reverse ++ ts) is true none) := by
  have hb' := hb.mono (Nat.le_succ d)
  have hxs := fun y hy => h y (List.mem_cons_of_mem _ hy)
  have hpart : Through (base ts is true none) p (body x) (blockLines d body xs ++ rest) _ :=
    (h x List.mem_cons_self).reads hp (.opens hi) (below_blockLines hxs hb')
  have hall := hpart.append fun q hq => through_blockLines hxs hb' hq
  rw [drop_blockLines]
  simpa using hall.blockEnd hb

theorem ordinary_blockLines (h : ∀ x ∈ xs, Ordinary (body x)) (d : Nat) : Ordinary (blockLines d body xs) := by
  intro c hc
  obtain ⟨x, hx, hm⟩ := List.mem_flatMap.1 hc
  exact Ordinary.append (.blanks d) (h x hx) c hm

end Blocks

/-- The deepest column at which a line of a text leaves room for a character. -/
def deepest : Nat := 77

/-! ### Items and entries -/

/-- What is written of an item behind the indentation. -/
def itemBody (indent : Nat) (v : Value) : List Char :=
  (item indent v).drop indent

theorem itemBody_list (d : Nat) (v : Value) (vs : List Value) :
    itemBody d (.list (v :: vs)) = '-' :: ' ' :: (items (d + 2) (v :: vs)).drop (d + 2) := by
  simp [itemBody, item, blanks]

theorem itemBody_map (d : Nat) (e : Value × Value) (es : List (Value × Value)) :
    itemBody d (.map (e :: es)) = '-' :: ' ' :: (Writer.entries (d + 2) (e :: es)).drop (d + 2) := by
  simp [itemBody, item, blanks]

theorem itemBody_oneLine {v : Value} (hv : OneLine v) (d : Nat) :
    itemBody d v = '-' :: ' ' :: (Writer.inline (d + 2) (d + 2) v ++ ['\n']) := by
  cases hv with
  | text => simp [itemBody, item, blanks]
  | bool => simp [itemBody, item, blanks]
  | list => simp [itemBody, item, blanks]
  | map => simp [itemBody, item, blanks]

theorem item_eq (d : Nat) (v : Value) : item d v = List.replicate d ' ' ++ itemBody d v := by
  unfold itemBody item
  split <;> simp [blanks]

theorem items_eq (d : Nat) (vs : List Value) : items d vs = blockLines d (itemBody d) vs := by
  induction vs with
  | nil => rfl
  | cons v vs ih => rw [items, item_eq, ih, blockLines, blockLines, List.flatMap_cons]

theorem itemTokens_eq (vs : List Value) : itemTokens vs = vs.flatMap fun v => .blockEntry :: tokensOf false v := by
  induction vs with
  | nil => rfl
  | cons v vs ih => rw [itemTokens, ih, List.flatMap_cons]

/-- What is written of an entry behind the indentation. -/
def entryBody (indent : Nat) (e : Value × Value) : List Char :=
  e.1.plain.toList ++ ':' :: underKey indent e.1.plain.length e.2

theorem underKey_oneLine {v : Value} (hv : OneLine v) (d length : Nat) :
    underKey d length v = ' ' :: (Writer.inline (d + 2) (d + length + 2) v ++ ['\n']) := by
  cases hv <;> simp [underKey]

theorem exists_underKey (indent length : Nat) (v : Value) :
    ∃ g cs, underKey indent length v = g :: cs ∧ isGap g = true := by
  unfold underKey
  split
  · exact ⟨'\n', _, rfl, rfl⟩
  · exact ⟨'\n', _, rfl, rfl⟩
  · exact ⟨' ', _, rfl, rfl⟩

theorem entries_eq (d : Nat) (es : List (Value × Value)) : Writer.entries d es = blockLines d (entryBody d) es := by
  induction es with
  | nil => rfl
  | cons e es ih =>
    rw [blockLines, List.flatMap_cons, ← blockLines, ← ih]
    simp [Writer.entries, entryBody, blanks]

theorem entryTokens_eq (es : List (Value × Value)) : entryTokens es =
    es.flatMap fun e => .key :: .scalar (.plain e.1.plain) true :: .value :: tokensOf true e.2 := by
  induction es with
  | nil => rfl
  | cons e es ih => rw [entryTokens, ih, List.flatMap_cons]

/-- Wherever it is an item, a value is read as its tokens. -/
def ItemReads (n : Nat) (v : Value) : Prop :=
  ∀ {d : Nat}, d + 2 * n ≤ deepest → Part .blockListStart d (itemBody d v) (.blockEntry :: tokensOf false v)

/-- Wherever it stands under a key, a value is read as its tokens. -/
def EntryReads (n : Nat) (v : Value) : Prop :=
  ∀ {d length : Nat} {ts : List Token} {is : List Nat} {p : Position} {rest : List Char}, d + 2 * n ≤ deepest →
    d < p.column → Below (d + 1) rest →
    Through (base ts (d :: is) false none) p (underKey d length v) rest
      (base ((tokensOf true v).reverse ++ ts) (d :: is) true none)

theorem Enters.head {t : Token} {d : Nat} {ts' : List Token} {is' : List Nat} (h : Enters t d ts is ts' is') :
    ∃ is₀, is' = d :: is₀ := by
  cases h with
  | inside => exact ⟨_, rfl⟩
  | opens => exact ⟨_, rfl⟩

/-- The dash of an item and the blank behind it. -/
theorem leads_dash_blank {d : Nat} {ts' : List Token} {is' : List Nat} (hp : p.column = d)
    (h : Enters .blockListStart d ts is ts' is') :
    ∃ q : Position, q.column = d + 2 ∧ ∀ cs, Leads (base ts is true none) (marks p ('-' :: ' ' :: cs))
      (base (.blockEntry :: ts') is' true none) (marks q cs) := by
  subst hp
  have hd : p.after '-' = ⟨p.index + 1, p.line, p.column + 1⟩ := Position.after_ordinary (by decide) (by decide)
  refine ⟨(p.after '-').after ' ', ?_, fun cs => (leads_dash h cs).trans (leads_blanks _ _ 1 cs)⟩
  rw [Position.after_ordinary (by decide) (by decide), hd]

/-- An item stands two columns further in than its dash. -/
theorem part_dash {d : Nat} {cs : List Char} {us : List Token}
    (h : ∀ {ts : List Token} {is : List Nat} {p : Position} {rest : List Char}, p.column = d + 2 →
      Below (d + 1) rest →
      Through (base ts (d :: is) true none) p cs rest (base (us.reverse ++ ts) (d :: is) true none)) :
    Part .blockListStart d ('-' :: ' ' :: cs) (.blockEntry :: us) where
  begins := ⟨'-', _, rfl, by decide⟩
  reads := by
    intro ts ts' is is' p rest hp he hb
    obtain ⟨q, hq, hl⟩ := leads_dash_blank hp he
    obtain ⟨is₀, rfl⟩ := he.head
    have hitem : Through (base ts is true none) p (['-', ' '] ++ cs) rest _ :=
      Leads.through ['-', ' '] (hl (cs ++ rest)) (h hq hb)
    simpa using hitem

theorem itemReads_oneLine {v : Value} (hv : OneLine v) (n : Nat) : ItemReads n v := by
  intro d hn
  have hw : d + 2 + 1 ≤ width := by
    simp only [deepest, width] at hn ⊢
    omega
  rw [itemBody_oneLine hv]
  exact part_dash fun hq hb => through_inline (by omega) (by omega) hw hb (d + 2) hv false

theorem entryReads_oneLine {v : Value} (hv : OneLine v) (n : Nat) : EntryReads n v := by
  intro d length ts is p rest hn hp hb
  have hw : d + 2 + 1 ≤ width := by
    simp only [deepest, width] at hn ⊢
    omega
  rw [underKey_oneLine hv]
  have hcol : d < (p.after ' ').column := by
    rw [Position.after_ordinary (by decide) (by decide)]
    exact Nat.lt_succ_of_lt hp
  exact Leads.through [' '] (leads_blanks _ _ 1 _) (through_inline hcol (by omega) hw hb _ hv true)

/-- The block around stands further out. -/
theorem head_lt (d : Nat) (is : List Nat) : ∀ i ∈ (d :: is).head?, i < d + 2 := by
  intro i hi
  cases hi
  omega

/-! ### Lists -/

/-- A list that is not empty. -/
theorem itemReads_list {n : Nat} {v : Value} {vs : List Value} (hv : ∀ w ∈ v :: vs, ItemReads n w) :
    ItemReads (n + 1) (.list (v :: vs)) := by
  intro d hn
  rw [itemBody_list, items_eq, tokensOf, if_neg Bool.false_ne_true, itemTokens_eq]
  exact part_dash fun hq hb =>
    through_block (fun w hw => hv w hw (by omega)) (head_lt d _) (hb.mono (Nat.le_succ _)) hq

theorem entryReads_list {n : Nat} {v : Value} {vs : List Value} (hv : ∀ w ∈ v :: vs, ItemReads n w) :
    EntryReads (n + 1) (.list (v :: vs)) := by
  intro d length ts is p rest hn hp hb
  have hparts : ∀ w ∈ v :: vs, Part _ d _ _ := fun w hw => hv w hw (by omega)
  rw [underKey, items_eq, tokensOf, if_pos rfl, itemTokens_eq]
  exact through_newline (below_blockLines hparts hb) fun q hq => through_blockLines hparts hb hq

/-! ### Maps -/

/-- The entries of a map, as far as they can be written and read. -/
def EntriesRead (n : Nat) (es : List (Value × Value)) : Prop :=
  ∀ e ∈ es, (∃ k, e.1 = .text k ∧ IsKey k) ∧ EntryReads n e.2

/-- An entry, whose key may open the block. -/
theorem part_entry {n d : Nat} {e : Value × Value} (he : (∃ k, e.1 = .text k ∧ IsKey k) ∧ EntryReads n e.2)
    (hn : d + 2 * n ≤ deepest) : Part .blockMapStart d (entryBody d e)
      (.key :: .scalar (.plain e.1.plain) true :: .value :: tokensOf true e.2) := by
  obtain ⟨⟨k, hek, hk, hlen, -⟩, hv⟩ := he
  have hplain : e.1.plain = k := by rw [hek, Value.plain_text]
  rw [entryBody, hplain]
  constructor
  · obtain ⟨c, cs, hcs, hp, -⟩ := hk.exists_plainScalar
    exact ⟨c, cs ++ ':' :: underKey d k.length e.2, by rw [hcs, List.cons_append], hp.begins⟩
  · intro ts ts' is is' p rest hp hin hb
    obtain ⟨is₀, rfl⟩ := hin.head
    obtain ⟨g, cs, hu, hg⟩ := exists_underKey d k.length e.2
    subst hp
    have hkey := leads_key hin hk hlen hg (cs ++ rest)
    rw [← List.cons_append, ← hu] at hkey
    have hcol : p.column < ((p.behind k.toList).after ':').column := by
      rw [Position.after_ordinary (by decide) (by decide), hk.behind]
      simp only
      omega
    rw [List.append_cons]
    simpa using Leads.through (k.toList ++ [':']) (by simpa using hkey) (hv hn hcol hb)

/-- A map that is not empty. -/
theorem through_map {n d : Nat} {e : Value × Value} {es : List (Value × Value)} (he : EntriesRead n (e :: es))
    (hn : d + 2 * n ≤ deepest) (hi : ∀ i ∈ is.head?, i < d) (hb : Below d rest) (hp : p.column = d) (underKey : Bool) :
    Through (base ts is true none) p ((Writer.entries d (e :: es)).drop d) rest
      (base ((tokensOf underKey (.map (e :: es))).reverse ++ ts) is true none) := by
  rw [entries_eq, tokensOf, entryTokens_eq]
  exact through_block (fun f hf => part_entry (he f hf) hn) hi hb hp

theorem itemReads_map {n : Nat} {e : Value × Value} {es : List (Value × Value)} (he : EntriesRead n (e :: es)) :
    ItemReads (n + 1) (.map (e :: es)) := by
  intro d hn
  rw [itemBody_map]
  exact part_dash fun hq hb => through_map he (by omega) (head_lt d _) (hb.mono (Nat.le_succ _)) hq false

theorem entryReads_map {n : Nat} {e : Value × Value} {es : List (Value × Value)} (he : EntriesRead n (e :: es)) :
    EntryReads (n + 1) (.map (e :: es)) := by
  intro d length ts is p rest hn hp hb
  have hb' := hb.mono (Nat.le_succ (d + 1))
  have hlines : Writer.entries (d + 2) (e :: es) =
      List.replicate (d + 2) ' ' ++ (Writer.entries (d + 2) (e :: es)).drop (d + 2) := by
    rw [entries_eq, drop_blockLines, blockLines, List.flatMap_cons, List.append_assoc, blockLines]
  have hbelow : Below (d + 3) (Writer.entries (d + 2) (e :: es) ++ rest) := by
    rw [entries_eq]
    exact below_blockLines (fun f hf => part_entry (he f hf) (by omega)) (hb'.mono (Nat.le_succ _))
  rw [underKey]
  refine through_newline hbelow fun q hq => ?_
  have hcol : (q.behind (List.replicate (d + 2) ' ')).column = d + 2 := by rw [Position.behind_blanks, hq, Nat.zero_add]
  rw [hlines]
  exact Leads.through _ (leads_blanks _ _ _ _) (through_map he (by omega) (head_lt d is) hb' hcol true)

end States

end Lexer

open Lexer

theorem entriesRead_of_keys {n : Nat} {fs : List (String × Value)} (keys : ∀ f ∈ fs, IsKey f.1)
    (hv : ∀ f ∈ fs, EntryReads n f.2) : EntriesRead n (fs.map fun (k, v) => (.text k, v)) := by
  intro e he
  obtain ⟨f, hf, rfl⟩ := List.mem_map.1 he
  exact ⟨⟨f.1, rfl, keys f hf⟩, hv f hf⟩

/-- A value is read wherever it stands. The induction is on how it is plain: on its items and its entries. -/
theorem Plain.reads {n : Nat} {v : Value} (h : Plain n v) : ItemReads n v ∧ EntryReads n v := by
  induction h with
  | bool n b => exact ⟨itemReads_oneLine (.bool b) n, entryReads_oneLine (.bool b) n⟩
  | text n s => exact ⟨itemReads_oneLine (.text s) n, entryReads_oneLine (.text s) n⟩
  | @list n vs _ ih =>
    cases vs with
    | nil => exact ⟨itemReads_oneLine .list _, entryReads_oneLine .list _⟩
    | cons v vs => exact ⟨itemReads_list fun w hw => (ih w hw).1, entryReads_list fun w hw => (ih w hw).1⟩
  | @object n fs _ keys _ ih =>
    have he := entriesRead_of_keys keys fun f hf => (ih f hf).2
    cases fs with
    | nil => exact ⟨itemReads_oneLine .map _, entryReads_oneLine .map _⟩
    | cons f fs => exact ⟨itemReads_map he, entryReads_map he⟩

/-! ## Documents -/

theorem isAllowed_of_isOrdinary {c : Char} (h : isOrdinary c = true) : isAllowed c = true := by
  simp only [isOrdinary, Bool.or_eq_true, Bool.and_eq_true, decide_eq_true_eq] at h
  rcases h with rfl | h
  · decide
  · simp [isAllowed, h]

theorem Ordinary.drop {cs : List Char} (h : Ordinary cs) (n : Nat) : Ordinary (cs.drop n) := fun c hc =>
  h c (List.mem_of_mem_drop hc)

theorem ordinary_text (indent column : Nat) (s : String) : Ordinary (text indent column s) := by
  unfold text
  split
  · next h => exact ordinary_plainFrom (fun c hc => ((plainText_of_allowsPlain h).ordinary c hc).1) indent column true
  split
  · next h =>
    simp only [allowsSingle, Bool.and_eq_true, List.all_eq_true] at h
    exact .cons (by decide) (ordinary_singleFrom h.1.1 indent _ _)
  · exact .cons (by decide) (ordinary_doubleFrom indent _ _ _ _)

theorem ordinary_inline {v : Value} (hv : OneLine v) (indent column : Nat) :
    Ordinary (Writer.inline indent column v) := by
  cases hv with
  | text s => exact ordinary_text indent column s
  | bool b =>
    cases b with
    | true => exact (by decide : Ordinary "true".toList)
    | false => exact (by decide : Ordinary "false".toList)
  | list => exact (by decide : Ordinary ['[', ']'])
  | map => exact (by decide : Ordinary ['\x7b', '\x7d'])

theorem ordinary_items {vs : List Value} (h : ∀ v ∈ vs, ∀ d, Ordinary (itemBody d v)) (d : Nat) :
    Ordinary (items d vs) := by
  rw [items_eq]
  exact ordinary_blockLines (fun v hv => h v hv d) d

theorem ordinary_object {fs : List (String × Value)} (keys : ∀ f ∈ fs, IsKey f.1)
    (hv : ∀ f ∈ fs, ∀ d length, Ordinary (underKey d length f.2)) (d : Nat) :
    Ordinary (Writer.entries d (fs.map fun (k, v) => (.text k, v))) := by
  rw [entries_eq]
  refine ordinary_blockLines (fun e he => ?_) d
  obtain ⟨f, hf, rfl⟩ := List.mem_map.1 he
  have hk : Ordinary f.1.toList := fun c hc => ((keys f hf).1.2 c hc).1
  rw [entryBody, Value.plain_text]
  exact .append hk (.cons (by decide) (hv f hf d _))

theorem ordinary_oneLine {v : Value} (hv : OneLine v) :
    (∀ d, Ordinary (itemBody d v)) ∧ ∀ d length, Ordinary (underKey d length v) := by
  constructor
  · intro d
    rw [itemBody_oneLine hv]
    exact .cons (by decide) (.cons (by decide) (.append (ordinary_inline hv _ _) (by decide)))
  · intro d length
    rw [underKey_oneLine hv]
    exact .cons (by decide) (.append (ordinary_inline hv _ _) (by decide))

/-- Whatever is written of a value is ordinary, wherever it stands. -/
theorem Plain.ordinary {n : Nat} {v : Value} (h : Plain n v) :
    (∀ d, Ordinary (itemBody d v)) ∧ ∀ d length, Ordinary (underKey d length v) := by
  induction h with
  | bool n b => exact ordinary_oneLine (.bool b)
  | text n s => exact ordinary_oneLine (.text s)
  | @list n vs _ ih =>
    cases vs with
    | nil => exact ordinary_oneLine .list
    | cons v vs =>
      have hi := ordinary_items fun w hw => (ih w hw).1
      constructor
      · intro d
        rw [itemBody_list]
        exact .cons (by decide) (.cons (by decide) ((hi _).drop _))
      · intro d length
        rw [underKey]
        exact .cons (by decide) (hi d)
  | @object n fs _ keys _ ih =>
    have he := ordinary_object keys fun f hf => (ih f hf).2
    cases fs with
    | nil => exact ordinary_oneLine .map
    | cons f fs =>
      constructor
      · intro d
        rw [Value.object, List.map_cons, itemBody_map]
        exact .cons (by decide) (.cons (by decide) ((he _).drop _))
      · intro d length
        rw [Value.object, List.map_cons, underKey]
        exact .cons (by decide) (he _)

theorem run_entries {n : Nat} {e : Value × Value} {es : List (Value × Value)} (he : EntriesRead n (e :: es))
    (hn : 2 * n ≤ deepest) {fuel : Nat} (hf : (Writer.entries 0 (e :: es)).length < fuel) :
    run fuel {} (marks {} (Writer.entries 0 (e :: es))) = .ok (tokensOf false (.map (e :: es))) := by
  have hthrough : Through (base [] [] true none) {} ((Writer.entries 0 (e :: es)).drop 0) [] _ :=
    through_map (d := 0) he (by omega) (by simp) (.inl rfl) rfl false
  obtain ⟨q, -, hl⟩ := hthrough
  simp only [List.drop_zero, List.append_nil] at hl
  obtain ⟨fuel', hf', hrun⟩ := hl fuel (by rwa [length_marks])
  refine hrun.trans ((run_end (by simp [Free]) (Nat.zero_lt_of_lt hf')).trans ?_)
  rw [List.reverse_reverse]

theorem tokens_of_ordinary {cs : List Char} (h : Ordinary cs) : tokens cs = run (cs.length + 1) {} (marks {} cs) := by
  have hall : cs.all isAllowed = true := List.all_eq_true.2 fun c hc => isAllowed_of_isOrdinary (h c hc)
  have hmark : startsWith orderMark (marks {} cs) = false := by
    cases cs with
    | nil => rfl
    | cons c cs => exact decide_eq_false (isOrdinary_ne_orderMark (h c List.mem_cons_self))
  rw [tokens, if_pos hall]
  simp [hmark, length_marks]

/-- **The tokens of a document** that is a map of plain values. -/
theorem tokens_document {n : Nat} {f : String × Value} {fs : List (String × Value)} (keys : ∀ g ∈ f :: fs, IsKey g.1)
    (hv : ∀ g ∈ f :: fs, Plain n g.2) (hn : 2 * n ≤ deepest) :
    Ordinary (document (.object (f :: fs))) ∧
      tokens (document (.object (f :: fs))) = .ok (tokensOf false (.object (f :: fs))) := by
  have he := entriesRead_of_keys keys fun g hg => (hv g hg).reads.2
  have ho : Ordinary (document (.object (f :: fs))) := ordinary_object keys (fun g hg => (hv g hg).ordinary.2) 0
  refine ⟨ho, ?_⟩
  rw [tokens_of_ordinary ho]
  exact run_entries he hn (Nat.lt_succ_self _)

end ExemptZones.Yaml
