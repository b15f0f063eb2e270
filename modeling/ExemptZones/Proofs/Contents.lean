import Mathlib.Data.List.Sort
import ExemptZones.Proofs.Session

/-
What a view of the store holds. Records are looked at as a map: two that answer every look-up alike are
the same (`Records.eq_of_get?`), and the entries of a view are those whose keys start as it says, each
without that beginning.

`inRange_keyAbove`: the range that a view scans holds the keys with its beginning and no others.
`View.contents_filter_inRange`: and a range within the view is scanned as a range of the store.
`View.mem_contents`: a view holds exactly what look-ups through it find.
-/

namespace ExemptZones

theorem Bytes.append_lt_append {p x y : Bytes} : p ++ x < p ++ y ↔ x < y := by
  induction p with
  | nil => rfl
  | cons b p ih => simp [ih]

/-! ## Records as a map -/

namespace Records

theorem eq_of_get? {r r' : Records} (h : ∀ k, r.get? k = r'.get? k) : r = r' := by
  refine ext (List.Pairwise.eq_of_mem_iff (r := fun a b : Record => a.1 < b.1) r.ascending r'.ascending ?_)
  rintro ⟨k, v⟩
  rw [mem_entries_iff, mem_entries_iff, h]

/-- The records that satisfy `p`. -/
def keep (p : Record → Bool) (r : Records) : Records :=
  ⟨r.entries.filter p, r.ascending.filter p⟩

theorem get?_keep_eq_some_iff {p : Record → Bool} {r : Records} {k v : Bytes} :
    (r.keep p).get? k = some v ↔ r.get? k = some v ∧ p (k, v) = true := by
  rw [← mem_entries_iff, ← mem_entries_iff, keep, List.mem_filter]

theorem erase_eq_keep (r : Records) (k : Bytes) : r.erase k = r.keep fun e => e.1 ≠ k := rfl

theorem keep_keep (p q : Record → Bool) (r : Records) : (r.keep p).keep q = r.keep fun e => p e && q e := by
  simp only [keep, List.filter_filter, Bool.and_comm]

theorem keep_congr {p q : Record → Bool} {r : Records} (h : ∀ e ∈ r.entries, p e = q e) : r.keep p = r.keep q :=
  ext (List.filter_congr h)

/-- Erasing keys one after the other leaves the records of all other keys. -/
theorem foldl_erase (ks : List Bytes) (r : Records) :
    ks.foldl erase r = r.keep fun e => !ks.contains e.1 := by
  induction ks generalizing r with
  | nil => simp [keep]
  | cons k ks ih =>
    rw [List.foldl_cons, ih, erase_eq_keep, keep_keep]
    refine keep_congr fun e _ => ?_
    by_cases h : e.1 = k <;> simp [h]

theorem get?_foldl_erase (r : Records) (ks : List Bytes) (k : Bytes) :
    (ks.foldl erase r).get? k = if k ∈ ks then none else r.get? k := by
  induction ks generalizing r with
  | nil => rfl
  | cons k' ks ih =>
    rw [List.foldl_cons, ih, get?_erase]
    by_cases hk : k' = k
    · simp [hk]
    · simp [hk, Ne.symm hk]

theorem inRange_iff {start stop : Option Bytes} {k : Bytes} :
    inRange start stop k = true ↔ (∀ a, start = some a → ¬ k < a) ∧ ∀ b, stop = some b → k < b := by
  cases start <;> cases stop <;> simp [inRange]

theorem insert_of_get? {r : Records} {k v : Bytes} (h : r.get? k = some v) : r.insert k v = r := by
  refine eq_of_get? fun k' => ?_
  rw [get?_insert]
  split
  · rename_i hk; rw [← hk, h]
  · rfl

/-! ## Many records -/

section InsertAll

variable {α : Type} (f : α → Record)

/-- Writes the records of some things one after the other. -/
def insertAll (r : Records) (xs : List α) : Records :=
  xs.foldl (fun r x => r.insert (f x).1 (f x).2) r

/-- The last record written under a key is the one that is found. -/
theorem get?_insertAll (r : Records) (xs : List α) (k : Bytes) :
    (r.insertAll f xs).get? k = ((xs.reverse.find? fun x => (f x).1 = k).map fun x => (f x).2).or (r.get? k) := by
  induction xs generalizing r with
  | nil => rfl
  | cons x xs ih =>
    rw [show r.insertAll f (x :: xs) = (r.insert (f x).1 (f x).2).insertAll f xs from rfl, ih, get?_insert,
      List.reverse_cons, List.find?_append]
    cases xs.reverse.find? fun x => (f x).1 = k with
    | some x' => rfl
    | none => by_cases hx : (f x).1 = k <;> simp [hx]

/-- A key that is not written stands for what it stood for. -/
theorem get?_insertAll_of_forall_ne {xs : List α} {k : Bytes} (h : ∀ x ∈ xs, (f x).1 ≠ k) (r : Records) :
    (r.insertAll f xs).get? k = r.get? k := by
  have hn : (xs.reverse.find? fun x => (f x).1 = k) = none :=
    List.find?_eq_none.2 fun x hx => by simpa using h x (List.mem_reverse.1 hx)
  rw [get?_insertAll, hn]
  rfl

/-- A key that is written once stands for what was written. -/
theorem get?_insertAll_of_mem {xs : List α} (hn : (xs.map fun x => (f x).1).Nodup) {x : α} (hx : x ∈ xs)
    (r : Records) : (r.insertAll f xs).get? (f x).1 = some (f x).2 := by
  rw [get?_insertAll]
  cases hf : xs.reverse.find? fun y => (f y).1 = (f x).1 with
  | none => exact absurd (List.find?_eq_none.1 hf x (List.mem_reverse.2 hx)) (by simp)
  | some y =>
    have hy : y ∈ xs := List.mem_reverse.1 (List.mem_of_find?_eq_some hf)
    have he : (f y).1 = (f x).1 := by simpa using List.find?_some hf
    obtain rfl := List.inj_on_of_nodup_map hn hy hx he
    rfl

/-- Where no key is written twice the order of the writes does not matter. -/
theorem insertAll_reverse {xs : List α} (hn : (xs.map fun x => (f x).1).Nodup) (r : Records) :
    r.insertAll f xs.reverse = r.insertAll f xs := by
  have hn' : (xs.reverse.map fun x => (f x).1).Nodup := by rwa [List.map_reverse, List.nodup_reverse]
  refine eq_of_get? fun k => ?_
  by_cases hk : ∃ x ∈ xs, (f x).1 = k
  · obtain ⟨x, hx, rfl⟩ := hk
    rw [get?_insertAll_of_mem f hn hx, get?_insertAll_of_mem f hn' (List.mem_reverse.2 hx)]
  · have hne : ∀ x ∈ xs, (f x).1 ≠ k := fun x hx he => hk ⟨x, hx, he⟩
    rw [get?_insertAll_of_forall_ne f hne, get?_insertAll_of_forall_ne f fun x hx => hne x (List.mem_reverse.1 hx)]

end InsertAll

end Records

/-! ## The keys with a fixed beginning -/

theorem keyAbove_cons (b : UInt8) (p : Bytes) :
    keyAbove (b :: p) = match keyAbove p with
      | some e => some (b :: e)
      | none => if b = 0xff then none else some [b + 1] := by
  simp only [keyAbove, List.reverse_cons, List.dropWhile_append]
  cases h : p.reverse.dropWhile (· = 0xff) with
  | nil => by_cases hb : b = 0xff <;> simp [hb]
  | cons c cs => simp

/-- The range from `p` up to the key above it holds the keys that start with `p`. -/
theorem inRange_keyAbove (p k : Bytes) : Records.inRange (some p) (keyAbove p) k = p.isPrefixOf k := by
  induction p generalizing k with
  | nil => simp [Records.inRange, keyAbove]
  | cons b p ih =>
    cases k with
    | nil => simp [Records.inRange]
    | cons c k =>
      have ih := ih k
      rw [keyAbove_cons]
      cases h : keyAbove p with
      | some e =>
        simp only [h, Records.inRange] at ih
        simp only [Records.inRange, List.isPrefixOf, List.cons_lt_cons_iff, ← ih]
        grind
      | none =>
        simp only [h, Records.inRange] at ih
        have hk : ¬ k < [] := List.not_lt_nil k
        by_cases hb : b = 0xff
        · simp only [Records.inRange, hb, List.isPrefixOf, List.cons_lt_cons_iff, if_true, ← ih]
          grind
        · simp only [Records.inRange, hb, List.isPrefixOf, List.cons_lt_cons_iff, if_false, ← ih]
          grind

namespace View

/-- The records of a view, with their keys as the view shows them. -/
def contents (v : View) (r : Records) : List Record :=
  (r.entries.filter fun e => v.beginning.isPrefixOf e.1).map v.strip

theorem strip_key (v : View) (k x : Bytes) : v.strip (v.key k, x) = (k, x) := by
  simp [strip, key]

theorem key_injective {v : View} {k k' : Bytes} (h : v.key k = v.key k') : k = k' :=
  List.append_cancel_left h

theorem isPrefixOf_iff {v : View} {k : Bytes} : v.beginning.isPrefixOf k = true ↔ ∃ k', k = v.key k' := by
  rw [List.isPrefixOf_iff_prefix]
  exact ⟨fun ⟨t, h⟩ => ⟨t, h.symm⟩, fun ⟨t, h⟩ => ⟨t, h.symm⟩⟩

theorem mem_contents {v : View} {r : Records} {k x : Bytes} :
    (k, x) ∈ v.contents r ↔ r.get? (v.key k) = some x := by
  rw [← Records.mem_entries_iff, contents, List.mem_map]
  constructor
  · rintro ⟨⟨k', x'⟩, hm, he⟩
    obtain ⟨hm, hp⟩ := List.mem_filter.1 hm
    obtain ⟨k'', rfl⟩ := isPrefixOf_iff.1 hp
    rw [strip_key] at he
    cases he
    exact hm
  · intro hm
    exact ⟨_, List.mem_filter.2 ⟨hm, isPrefixOf_iff.2 ⟨k, rfl⟩⟩, strip_key v k x⟩

theorem ascending_contents (v : View) (r : Records) : Ascending (v.contents r) := by
  refine List.pairwise_map.2 ?_
  refine (r.ascending.filter _).imp_of_mem ?_
  rintro ⟨_, xa⟩ ⟨_, xb⟩ ha hb hlt
  obtain ⟨ka, rfl⟩ := isPrefixOf_iff.1 (List.mem_filter.1 ha).2
  obtain ⟨kb, rfl⟩ := isPrefixOf_iff.1 (List.mem_filter.1 hb).2
  rw [strip_key, strip_key]
  exact Bytes.append_lt_append.1 hlt

/-- The keys of a view lie between its beginning and the key above all of them. -/
theorem inRange_beginning (v : View) (k : Bytes) :
    ¬ v.key k < v.beginning ∧ ∀ b, keyAbove v.beginning = some b → v.key k < b := by
  have hp : v.beginning.isPrefixOf (v.key k) = true := isPrefixOf_iff.2 ⟨k, rfl⟩
  obtain ⟨hlow, hup⟩ := Records.inRange_iff.1 ((inRange_keyAbove v.beginning (v.key k)).trans hp)
  exact ⟨hlow _ rfl, hup⟩

theorem inRange_key (v : View) (start stop : Option Bytes) (k : Bytes) :
    Records.inRange (some (v.lower start)) (v.upper stop) (v.key k) = Records.inRange start stop k := by
  obtain ⟨hlow, hup⟩ := v.inRange_beginning k
  rw [Bool.eq_iff_iff, Records.inRange_iff, Records.inRange_iff]
  refine and_congr ?_ ?_
  · cases start with
    | none => simpa [lower] using hlow
    | some a => simp only [lower, key, Option.some.injEq, forall_eq', Bytes.append_lt_append]
  · cases stop with
    | none => simpa [upper] using hup
    | some b => simp only [upper, key, Option.some.injEq, forall_eq', Bytes.append_lt_append]

/-- A range that starts inside a view and does not end above it has no other keys than those of the view. -/
theorem isPrefixOf_of_inRange {v : View} {start stop : Option Bytes} {k : Bytes}
    (h : Records.inRange (some (v.lower start)) (v.upper stop) k = true) : v.beginning.isPrefixOf k = true := by
  obtain ⟨hlow, hup⟩ := Records.inRange_iff.1 h
  rw [← inRange_keyAbove, Records.inRange_iff]
  constructor
  · rintro _ ⟨⟩ hlt
    refine hlow _ rfl ?_
    cases start with
    | none => exact hlt
    | some a => exact Std.lt_of_lt_of_le hlt (List.not_lt.1 (v.inRange_beginning a).1)
  · intro b hb
    cases stop with
    | none => exact hup b hb
    | some c => exact Bytes.lt_trans (hup _ rfl) ((v.inRange_beginning c).2 b hb)

/-- A range of the store that a view scans holds the records of the view whose keys, as the view shows them, lie
in the range asked for. -/
theorem contents_filter_inRange (v : View) (r : Records) (start stop : Option Bytes) :
    (r.range (some (v.lower start)) (v.upper stop)).map v.strip =
      (v.contents r).filter fun e => Records.inRange start stop e.1 := by
  rw [Records.range, contents, List.filter_map, List.filter_filter]
  refine congrArg _ (List.filter_congr fun e _ => ?_)
  by_cases hp : v.beginning.isPrefixOf e.1 = true
  · obtain ⟨k, hk⟩ := isPrefixOf_iff.1 hp
    have hs : v.strip e = (k, e.2) := by rw [← strip_key v k e.2, ← hk]
    rw [hp, hk, inRange_key, Bool.and_true, Function.comp_apply, hs]
  · rw [Bool.eq_false_of_not_eq_true hp, Bool.and_false, ← Bool.not_eq_true]
    exact fun h => hp (isPrefixOf_of_inRange h)

/-! ## Access through a view -/

variable {s : Session}

theorem run_get (v : View) (hs : s.store.link = .live) (k : Bytes) :
    (v.get k).run s = (.ok (s.records.get? (v.key k)), s) :=
  Store.run_get hs _

theorem run_has (v : View) (hs : s.store.link = .live) (k : Bytes) :
    (v.has k).run s = (.ok (s.records.get? (v.key k)).isSome, s) :=
  Store.run_has hs _

theorem run_set (v : View) (hs : s.store.link = .live) (k x : Bytes) :
    (v.set k x).run s = (.ok (), s.write (s.records.insert (v.key k) x)) :=
  Store.run_set hs _ _

theorem run_delete (v : View) (hs : s.store.link = .live) (k : Bytes) :
    (v.delete k).run s = (.ok (), s.write (s.records.erase (v.key k))) :=
  Store.run_delete hs _

/-- A scan answers the records of the view in the range, in the order asked for. -/
theorem run_scan_range (v : View) (hs : s.store.link = .live) (start stop : Option Bytes) (reverse : Bool) :
    (v.scan start stop reverse).run s =
      (.ok (Store.ordered reverse ((v.contents s.records).filter fun e => Records.inRange start stop e.1)), s) := by
  rw [← contents_filter_inRange]
  cases reverse <;> simp [scan, Store.run_scan hs, Store.ordered]

theorem run_scan (v : View) (hs : s.store.link = .live) :
    (v.scan none none false).run s = (.ok (v.contents s.records), s) := by
  simp [run_scan_range v hs, Records.inRange, Store.ordered]

/-- Deleting keys one after the other. -/
theorem run_forM_delete (v : View) (hs : s.Ready) (ks : List Bytes) :
    (ks.forM v.delete).run s = (.ok (), s.write ((ks.map v.key).foldl Records.erase s.records)) := by
  induction ks generalizing s with
  | nil => simp [hs.write_records]
  | cons k ks ih =>
    simp only [Action.run_forM_cons, v.run_delete hs.live, ih (hs.write _), Session.records_write,
      Session.write_write, List.map_cons, List.foldl_cons]

end View

end ExemptZones
