import ExemptZones.Proofs.YamlBlocks
import ExemptZones.Yaml.Document

/-
From the tokens of a value back to the value. A text that could be taken for something else is not plain, so its node
is a text whatever it spells; a plain one spells a text.

`Plain.builds`: from its tokens a node is made that stands for the value.
`read_write`: so a document reads back.
-/

namespace ExemptZones.Yaml

open Writer

/-! ## Nodes -/

/-- The place of a node under a key, or of an item. -/
def placeOf (underKey : Bool) : Place :=
  if underKey then .blockEntry else .block

/-- What may follow a list under a key: not an item more. -/
def Closes (ts : List Token) : Prop :=
  ts.head? ≠ some .blockEntry

/-- From its tokens a node is made that stands for the value. Three steps for each token are enough. -/
def Builds (underKey : Bool) (v : Value) : Prop :=
  ∃ n, value n = .ok v ∧ ∀ fuel (s : Reading) rest, 3 * (tokensOf underKey v).length ≤ fuel →
    (underKey = true → Closes rest) →
    node (placeOf underKey) fuel { s with ahead := tokensOf underKey v ++ rest } = .ok (n, { s with ahead := rest })

section Nodes

variable {s : Reading} {rest : List Token} {fuel : Nat} {place : Place}

theorem node_scalar (c : Text) (plain : Bool) :
    node place (fuel + 1) { s with ahead := .scalar c plain :: rest } =
      .ok (.scalar (Properties.scalarTag {} plain c) c, { s with ahead := rest }) := by
  rw [node]
  rfl

theorem builds_scalar {underKey : Bool} {v : Value} {t : String} {plain : Bool}
    (ht : tokensOf underKey v = [.scalar (.plain t) plain])
    (hv : scalarValue (Properties.scalarTag {} plain (.plain t)) (.plain t) = .ok v) : Builds underKey v := by
  refine ⟨.scalar (Properties.scalarTag {} plain (.plain t)) (.plain t), ?_, fun fuel s rest hf _ => ?_⟩
  · rw [value, hv]
  · obtain ⟨fuel, rfl⟩ : ∃ n, fuel = n + 1 := ⟨fuel - 1, by simp [ht] at hf; omega⟩
    rw [ht, List.cons_append, node_scalar]
    rfl

theorem builds_text (underKey : Bool) (t : String) : Builds underKey (.text t) := by
  refine builds_scalar (t := t) (by rw [tokensOf]) ?_
  have htag : Properties.scalarTag {} (allowsPlain t) (.plain t) = .kind .text := by
    cases h : allowsPlain t with
    | false => rfl
    | true =>
      simp only [allowsPlain, Bool.and_eq_true, decide_eq_true_eq] at h
      exact congrArg Tag.kind h.1.1.1.1.1.1
  rw [htag]
  rfl

theorem builds_bool (underKey : Bool) (b : Bool) : Builds underKey (.bool b) := by
  have hlower : ∀ t : String, t.toList.map Char.toLower = t.toList → t.toLower = t := fun t ht =>
    String.toList_injective (String.toList_map.trans ht)
  cases b with
  | true =>
    refine builds_scalar (t := "true") (by rw [tokensOf]) ?_
    show flagValue "true" = _
    rw [flagValue, hlower "true" (by decide)]
    rfl
  | false =>
    refine builds_scalar (t := "false") (by rw [tokensOf]) ?_
    show flagValue "false" = _
    rw [flagValue, hlower "false" (by decide)]
    rfl

theorem builds_nil (underKey : Bool) : Builds underKey (.list []) := by
  refine ⟨.list .list [], rfl, fun fuel s rest hf _ => ?_⟩
  obtain ⟨fuel, rfl⟩ : ∃ n, fuel = n + 2 := ⟨fuel - 2, by simp [tokensOf] at hf; omega⟩
  simp only [tokensOf, List.cons_append, List.nil_append]
  rw [node]
  · rfl

theorem builds_empty (underKey : Bool) : Builds underKey (.map []) := by
  refine ⟨.map .map [], rfl, fun fuel s rest hf _ => ?_⟩
  obtain ⟨fuel, rfl⟩ : ∃ n, fuel = n + 2 := ⟨fuel - 2, by simp [tokensOf] at hf; omega⟩
  simp only [tokensOf, List.cons_append, List.nil_append]
  rw [node]
  · rfl

/-! ### Where a node is expected -/

/-- The tokens in front of which a node that is expected is left out. Under a key the dash of an item is not among them,
since a list begins with it there. -/
def stops (underKey : Bool) : List Token :=
  if underKey then [.key, .value, .blockEnd] else [.blockEntry, .key, .value, .blockEnd]

/-- A value begins with a token that does not stand for a missing one. -/
theorem exists_head (underKey : Bool) {n : Nat} {v : Value} (h : Plain n v) :
    ∃ t ts, tokensOf underKey v = t :: ts ∧ t ∉ stops underKey := by
  have hnode : ∀ t ∉ [Token.blockEntry, .key, .value, .blockEnd], t ∉ stops underKey := by
    intro t ht
    cases underKey with
    | true => exact fun h => ht (List.mem_cons_of_mem _ h)
    | false => exact ht
  cases h with
  | bool n b =>
    cases b with
    | true => exact ⟨_, _, by rw [tokensOf], hnode _ (by simp)⟩
    | false => exact ⟨_, _, by rw [tokensOf], hnode _ (by simp)⟩
  | text => exact ⟨_, _, by rw [tokensOf], hnode _ (by simp)⟩
  | @list n vs =>
    cases vs with
    | nil => exact ⟨_, _, by rw [tokensOf], hnode _ (by simp)⟩
    | cons v vs =>
      cases underKey with
      | true => exact ⟨.blockEntry, _, by rw [tokensOf, if_pos rfl, itemTokens, List.cons_append], by simp [stops]⟩
      | false => exact ⟨.blockListStart, _, by rw [tokensOf, if_neg (by simp), List.cons_append], by simp [stops]⟩
  | @object n fs =>
    cases fs with
    | nil => exact ⟨.flowMapStart, _, by rw [Value.object, List.map_nil, tokensOf], hnode _ (by simp)⟩
    | cons f fs =>
      exact ⟨.blockMapStart, _, by rw [Value.object, List.map_cons, tokensOf, List.cons_append], hnode _ (by simp)⟩

theorem tokensOf_pos (underKey : Bool) {n : Nat} {v : Value} (h : Plain n v) : 0 < (tokensOf underKey v).length := by
  obtain ⟨t, ts, hts, -⟩ := exists_head underKey h
  rw [hts]
  exact Nat.succ_pos _

theorem sees_cons (t : Token) (ts stop : List Token) :
    Reading.sees { s with ahead := t :: ts } stop = stop.contains t := rfl

theorem sees_self (t : Token) (ts : List Token) : Reading.sees { s with ahead := t :: ts } [t] = true := by
  simp [sees_cons]

theorem nodeOrEmpty_of_node {stop : List Token} {t : Token} {ts : List Token} (h : stop.contains t = false) :
    nodeOrEmpty place stop (fuel + 1) { s with ahead := t :: ts } = node place fuel { s with ahead := t :: ts } := by
  rw [nodeOrEmpty, sees_cons, h]
  rfl

/-- Where a node is expected, the one of the value is read. -/
theorem Builds.nodeOrEmpty {underKey : Bool} {n : Nat} {v : Value} (hb : Builds underKey v) (hp : Plain n v) :
    ∃ m, value m = .ok v ∧ ∀ {stop fuel} {s : Reading} {rest}, stop ⊆ stops underKey →
      3 * (tokensOf underKey v).length ≤ fuel → (underKey = true → Closes rest) →
      nodeOrEmpty (placeOf underKey) stop (fuel + 1) { s with ahead := tokensOf underKey v ++ rest } =
        .ok (m, { s with ahead := rest }) := by
  obtain ⟨m, hm, hnode⟩ := hb
  obtain ⟨t, ts, hts, ht⟩ := exists_head underKey hp
  refine ⟨m, hm, fun {stop fuel s rest} hstop hf hr => ?_⟩
  have hn := hnode fuel s rest hf hr
  rw [hts, List.cons_append] at hn ⊢
  have hc : stop.contains t = false := by simpa using fun h => ht (hstop h)
  rw [nodeOrEmpty_of_node hc]
  exact hn

/-! ### Lists -/

theorem blockItems_end (h : 0 < fuel) :
    blockItems fuel { s with ahead := .blockEnd :: rest } = .ok ([], { s with ahead := rest }) := by
  obtain ⟨fuel, rfl⟩ : ∃ n, fuel = n + 1 := ⟨fuel - 1, by omega⟩
  rw [blockItems]
  rfl

theorem looseItems_end (h : 0 < fuel) (hr : Closes rest) :
    looseItems fuel { s with ahead := rest } = .ok ([], { s with ahead := rest }) := by
  obtain ⟨fuel, rfl⟩ : ∃ n, fuel = n + 1 := ⟨fuel - 1, by omega⟩
  rw [looseItems]
  cases rest with
  | nil => rfl
  | cons t ts =>
    have ht : [Token.blockEntry].contains t = false := by
      simp only [Closes, List.head?_cons, ne_eq, Option.some.injEq] at hr
      simp [hr]
    rw [sees_cons, ht]
    rfl

theorem blockItems_cons {s' s'' : Reading} {ts : List Token} {m : Node} {ns : List Node}
    (hn : nodeOrEmpty .block [.blockEntry, .blockEnd] fuel { s with ahead := ts } = .ok (m, s'))
    (hr : blockItems fuel s' = .ok (ns, s'')) :
    blockItems (fuel + 1) { s with ahead := .blockEntry :: ts } = .ok (m :: ns, s'') := by
  rw [blockItems, if_pos (sees_self _ _)]
  simp only [Reading.next, List.drop_one, List.tail_cons, hn, hr, bind, Except.bind]
  rfl

theorem looseItems_cons {s' s'' : Reading} {ts : List Token} {m : Node} {ns : List Node}
    (hn : nodeOrEmpty .block [.blockEntry, .key, .value, .blockEnd] fuel { s with ahead := ts } = .ok (m, s'))
    (hr : looseItems fuel s' = .ok (ns, s'')) :
    looseItems (fuel + 1) { s with ahead := .blockEntry :: ts } = .ok (m :: ns, s'') := by
  rw [looseItems, if_pos (sees_self _ _)]
  simp only [Reading.next, List.drop_one, List.tail_cons, hn, hr, bind, Except.bind]
  rfl

/-- The items of a list, in a block of its own and under a key. -/
theorem exists_items {n : Nat} {vs : List Value} (hp : ∀ v ∈ vs, Plain n v) (hb : ∀ v ∈ vs, Builds false v) :
    ∃ ns, values ns = .ok vs ∧ ∀ fuel (s : Reading) rest, 0 < fuel → 3 * (itemTokens vs).length ≤ fuel + 1 →
      blockItems fuel { s with ahead := itemTokens vs ++ .blockEnd :: rest } = .ok (ns, { s with ahead := rest }) ∧
      (Closes rest →
        looseItems fuel { s with ahead := itemTokens vs ++ rest } = .ok (ns, { s with ahead := rest })) := by
  induction vs with
  | nil => exact ⟨[], rfl, fun fuel s rest h _ => ⟨blockItems_end h, looseItems_end h⟩⟩
  | cons v vs ih =>
    obtain ⟨ns, hns, hread⟩ :=
      ih (fun w hw => hp w (List.mem_cons_of_mem _ hw)) fun w hw => hb w (List.mem_cons_of_mem _ hw)
    obtain ⟨m, hm, hnode⟩ := (hb v List.mem_cons_self).nodeOrEmpty (hp v List.mem_cons_self)
    refine ⟨m :: ns, by simp only [values, hm, hns, bind, Except.bind, pure, Except.pure], fun fuel s rest _ hf => ?_⟩
    have hlen := tokensOf_pos false (hp v List.mem_cons_self)
    simp only [itemTokens, List.cons_append, List.length_cons, List.length_append, List.append_assoc] at hf ⊢
    obtain ⟨fuel, rfl⟩ : ∃ k, fuel = k + 2 := ⟨fuel - 2, by omega⟩
    obtain ⟨hblock, hloose⟩ := hread (fuel + 1) s rest (Nat.succ_pos _) (by omega)
    have hf' : 3 * (tokensOf false v).length ≤ fuel := by omega
    have hcloses : ∀ ts, false = true → Closes ts := fun _ h => absurd h Bool.false_ne_true
    exact ⟨blockItems_cons (hnode (by simp [stops]) hf' (hcloses _)) hblock,
      fun hr => looseItems_cons (hnode (by simp [stops]) hf' (hcloses _)) (hloose hr)⟩

theorem node_blockList {s' : Reading} {ts : List Token} {ns : List Node} (hp : place ≠ .flow)
    (hr : blockItems fuel { s with ahead := ts } = .ok (ns, s')) :
    node place (fuel + 1) { s with ahead := .blockListStart :: ts } = .ok (.list .list ns, s') := by
  rw [node]
  simp only [properties, bind, Except.bind, if_neg hp, Reading.name, hr]
  rfl

theorem node_looseList {s' : Reading} {ts : List Token} {ns : List Node}
    (hr : looseItems fuel { s with ahead := .blockEntry :: ts } = .ok (ns, s')) :
    node .blockEntry (fuel + 1) { s with ahead := .blockEntry :: ts } = .ok (.list .list ns, s') := by
  rw [node]
  simp only [properties, bind, Except.bind, if_pos, Reading.name, hr]
  rfl

theorem node_blockMap {s' : Reading} {ts : List Token} {ns : List (Node × Node)} (hp : place ≠ .flow)
    (hr : blockEntries fuel { s with ahead := ts } = .ok (ns, s')) :
    node place (fuel + 1) { s with ahead := .blockMapStart :: ts } = .ok (.map .map ns, s') := by
  rw [node]
  simp only [properties, bind, Except.bind, if_neg hp, Reading.name, hr]
  rfl

theorem placeOf_ne_flow (underKey : Bool) : placeOf underKey ≠ .flow := by
  cases underKey <;> decide

/-- A list that is not empty. -/
theorem builds_list {n : Nat} {v : Value} {vs : List Value} (hp : ∀ w ∈ v :: vs, Plain n w)
    (hb : ∀ w ∈ v :: vs, Builds false w) (underKey : Bool) : Builds underKey (.list (v :: vs)) := by
  obtain ⟨ns, hns, hread⟩ := exists_items hp hb
  refine ⟨.list .list ns, by rw [value, hns]; rfl, fun fuel s rest hf hr => ?_⟩
  have hlen : 0 < (itemTokens (v :: vs)).length := by simp [itemTokens]
  cases underKey with
  | true =>
    rw [tokensOf, if_pos rfl] at hf ⊢
    obtain ⟨fuel, rfl⟩ : ∃ k, fuel = k + 1 := ⟨fuel - 1, by omega⟩
    have hl := (hread fuel s rest (by omega) hf).2 (hr rfl)
    rw [itemTokens, List.cons_append] at hl ⊢
    exact node_looseList hl
  | false =>
    rw [tokensOf, if_neg (by decide)] at hf ⊢
    simp only [List.cons_append, List.length_cons, List.length_append, List.length_nil, List.append_assoc,
      List.nil_append] at hf ⊢
    obtain ⟨fuel, rfl⟩ : ∃ k, fuel = k + 1 := ⟨fuel - 1, by omega⟩
    exact node_blockList (by decide) (hread fuel s rest (by omega) (by omega)).1

/-! ### Maps -/

/-- The entries that stand for fields. -/
abbrev fieldEntries (fs : List (String × Value)) : List (Value × Value) :=
  fs.map fun (k, v) => (.text k, v)

theorem blockEntries_end (h : 0 < fuel) :
    blockEntries fuel { s with ahead := .blockEnd :: rest } = .ok ([], { s with ahead := rest }) := by
  obtain ⟨fuel, rfl⟩ : ∃ n, fuel = n + 1 := ⟨fuel - 1, by omega⟩
  rw [blockEntries]
  rfl

theorem blockEntries_cons {s₁ s₂ s₃ : Reading} {ts ts' : List Token} {k v : Node} {ns : List (Node × Node)}
    (hk : nodeOrEmpty .blockEntry [.key, .value, .blockEnd] fuel { s with ahead := ts } =
      .ok (k, { s₁ with ahead := .value :: ts' }))
    (hv : nodeOrEmpty .blockEntry [.key, .value, .blockEnd] fuel { s₁ with ahead := ts' } = .ok (v, s₂))
    (hr : blockEntries fuel s₂ = .ok (ns, s₃)) :
    blockEntries (fuel + 1) { s with ahead := .key :: ts } = .ok ((k, v) :: ns, s₃) := by
  rw [blockEntries, if_pos (sees_self _ _)]
  simp only [Reading.next, List.drop_one, List.tail_cons, hk, bind, Except.bind, sees_self, if_true, hv, hr]
  rfl

theorem closes_entries (es : List (Value × Value)) (rest : List Token) :
    Closes (entryTokens es ++ .blockEnd :: rest) := by
  cases es with
  | nil => exact nofun
  | cons e es => simp [Closes, entryTokens]

/-- The key of an entry. -/
theorem nodeOrEmpty_key {k : String} (hk : IsKey k) {stop : List Token}
    (hs : stop.contains (.scalar (.plain k) true) = false) (ts : List Token) :
    nodeOrEmpty place stop (fuel + 2) { s with ahead := .scalar (.plain k) true :: ts } =
      .ok (.scalar (.kind .text) (.plain k), { s with ahead := ts }) := by
  rw [nodeOrEmpty_of_node hs, node_scalar]
  have ht : Properties.scalarTag {} true (.plain k) = .kind .text := congrArg Tag.kind hk.2.2
  rw [ht]

theorem exists_entries {n : Nat} {fs : List (String × Value)} (keys : ∀ f ∈ fs, IsKey f.1) (hp : ∀ f ∈ fs, Plain n f.2)
    (hb : ∀ f ∈ fs, Builds true f.2) :
    ∃ ns, entries ns = .ok ([], fieldEntries fs) ∧ ∀ fuel (s : Reading) rest, 0 < fuel →
      3 * (entryTokens (fieldEntries fs)).length ≤ fuel + 1 →
      blockEntries fuel { s with ahead := entryTokens (fieldEntries fs) ++ .blockEnd :: rest } =
        .ok (ns, { s with ahead := rest }) := by
  induction fs with
  | nil => exact ⟨[], rfl, fun fuel s rest h _ => blockEntries_end h⟩
  | cons f fs ih =>
    obtain ⟨ns, hns, hread⟩ := ih (fun g hg => keys g (List.mem_cons_of_mem _ hg))
      (fun g hg => hp g (List.mem_cons_of_mem _ hg)) fun g hg => hb g (List.mem_cons_of_mem _ hg)
    obtain ⟨m, hm, hnode⟩ := (hb f List.mem_cons_self).nodeOrEmpty (hp f List.mem_cons_self)
    have hk := keys f List.mem_cons_self
    refine ⟨(.scalar (.kind .text) (.plain f.1), m) :: ns, ?_, fun fuel s rest _ hf => ?_⟩
    · simp [entries, isMergeKey, isDefaultKey, value, scalarValue, Value.ofText, fitKey, hm, hns, bind, Except.bind, pure,
        Except.pure]
    · simp only [fieldEntries, List.map_cons, entryTokens, List.cons_append, List.length_cons, List.length_append,
        List.append_assoc, Value.plain_text] at hf hread ⊢
      obtain ⟨fuel, rfl⟩ : ∃ k, fuel = k + 3 := ⟨fuel - 3, by omega⟩
      have hrest := hread (fuel + 2) s rest (Nat.succ_pos _) (by omega)
      have hf' : 3 * (tokensOf true f.2).length ≤ fuel + 1 := by omega
      exact blockEntries_cons (nodeOrEmpty_key hk (by simp) _)
        (hnode (by simp [stops]) hf' fun _ => closes_entries _ _) hrest

/-- A key that is not there yet goes to the end. -/
theorem putEntry_of_not_mem {fs : List (String × Value)} {k : String} (hk : k ∉ fs.map (·.1)) (v : Value) :
    putEntry (.text k) v (fieldEntries fs) = fieldEntries (fs ++ [(k, v)]) := by
  induction fs with
  | nil => rfl
  | cons f fs ih =>
    simp only [List.map_cons, List.mem_cons, not_or] at hk
    have hne : sameKey (.text f.1) (.text k) = false := by simpa [sameKey] using Ne.symm hk.1
    simp only [fieldEntries, List.map_cons, putEntry, hne, List.cons_append] at ih ⊢
    rw [ih hk.2]
    rfl

theorem foldl_putEntry (acc : List (String × Value)) {fs : List (String × Value)}
    (hn : ((acc ++ fs).map (·.1)).Nodup) :
    (fieldEntries fs).foldl (fun acc (k, v) => putEntry k v acc) (fieldEntries acc) = fieldEntries (acc ++ fs) := by
  induction fs generalizing acc with
  | nil => simp
  | cons f fs ih =>
    have hk : f.1 ∉ acc.map (·.1) := by
      rw [List.map_append, List.nodup_append] at hn
      exact fun hm => hn.2.2 f.1 hm f.1 (by simp) rfl
    have hi := ih (acc ++ [f]) (by simpa using hn)
    simp only [fieldEntries, List.map_cons, List.foldl_cons] at hi ⊢
    rw [← fieldEntries, putEntry_of_not_mem hk]
    simpa using hi

theorem ofEntries_fields {fs : List (String × Value)} (hn : (fs.map (·.1)).Nodup) :
    ofEntries (fieldEntries fs) = fieldEntries fs :=
  foldl_putEntry [] hn

theorem builds_map {n : Nat} {f : String × Value} {fs : List (String × Value)} (names : ((f :: fs).map (·.1)).Nodup)
    (keys : ∀ g ∈ f :: fs, IsKey g.1) (hp : ∀ g ∈ f :: fs, Plain n g.2) (hb : ∀ g ∈ f :: fs, Builds true g.2)
    (underKey : Bool) : Builds underKey (.object (f :: fs)) := by
  obtain ⟨ns, hns, hread⟩ := exists_entries keys hp hb
  refine ⟨.map .map ns, ?_, fun fuel s rest hf _ => ?_⟩
  · rw [value, hns]
    exact congrArg (fun es => Except.ok (Value.map es)) (ofEntries_fields names)
  · have hlen : 0 < (entryTokens (fieldEntries (f :: fs))).length := by simp [entryTokens]
    rw [Value.object, List.map_cons, tokensOf] at hf ⊢
    simp only [List.cons_append, List.length_cons, List.length_append, List.length_nil, List.append_assoc,
      List.nil_append] at hf ⊢
    obtain ⟨fuel, rfl⟩ : ∃ k, fuel = k + 1 := ⟨fuel - 1, by omega⟩
    have hf' : 3 * (entryTokens (fieldEntries (f :: fs))).length ≤ fuel + 1 := by
      simp only [fieldEntries, List.map_cons]
      omega
    exact node_blockMap (placeOf_ne_flow _) (hread fuel s rest (by omega) hf')

theorem Plain.builds {n : Nat} {v : Value} (h : Plain n v) (underKey : Bool) : Builds underKey v := by
  induction h generalizing underKey with
  | bool n b => exact builds_bool underKey b
  | text n t => exact builds_text underKey t
  | @list n vs hv ih =>
    cases vs with
    | nil => exact builds_nil underKey
    | cons v vs => exact builds_list hv (fun w hw => ih w hw false) underKey
  | @object n fs names keys hv ih =>
    cases fs with
    | nil => exact builds_empty underKey
    | cons f fs => exact builds_map names keys hv (fun g hg => ih g hg true) underKey

end Nodes

/-! ## Documents -/

/-- A document that is one value. -/
theorem value_ofTokens {v : Value} (hb : Builds false v) (ha : isAnnounced (tokensOf false v) = false) :
    ∃ n, Node.ofTokens (tokensOf false v) = .ok (some n) ∧ value n = .ok v := by
  obtain ⟨n, hv, hn⟩ := hb
  refine ⟨n, ?_, hv⟩
  have hread := hn (3 * (tokensOf false v).length + 3) ⟨[], defaultHandles, []⟩ [] (by omega) nofun
  simp only [List.append_nil] at hread
  simp only [placeOf, Bool.false_eq_true, if_false] at hread
  have hannounced : ¬ isAnnounced (tokensOf false v) = true := by simp [ha]
  have hne : tokensOf false v ≠ [] := by
    intro h
    rw [h] at ha
    cases ha
  rw [Node.ofTokens, if_neg hannounced]
  · simp only [hread, bind, Except.bind]
    rfl
  · exact hne

/-- **What is written reads back**, if it is a map of plain values. -/
theorem read_write {n : Nat} {f : String × Value} {fs : List (String × Value)} (names : ((f :: fs).map (·.1)).Nodup)
    (keys : ∀ g ∈ f :: fs, IsKey g.1) (hv : ∀ g ∈ f :: fs, Plain n g.2) (hn : 2 * n ≤ Lexer.deepest) :
    read (write (.object (f :: fs))) = .ok (.object (f :: fs)) := by
  obtain ⟨-, ht⟩ := tokens_document keys hv hn
  have hb : Builds false (.object (f :: fs)) := builds_map names keys hv (fun g hg => (hv g hg).builds true) false
  obtain ⟨m, hm, hval⟩ := value_ofTokens hb (by rw [Value.object, List.map_cons, tokensOf]; rfl)
  rw [read, write, String.toList_ofList, ht]
  simp only [bind, Except.bind, hm, hval]

end ExemptZones.Yaml
