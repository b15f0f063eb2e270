import ExemptZones.Bytes

/-
Records: a finite map from keys to values, both byte strings, held as a list in ascending order of
keys. The order is part of the type, so every operation keeps it.

`get?_insert`, `get?_erase`: what each operation does to a look-up.
`mem_entries_iff`: the list holds exactly what look-ups find.
-/

namespace ExemptZones

/-- A key and its value. -/
abbrev Record := Bytes × Bytes

/-- Ascending keys, none twice. -/
abbrev Ascending (es : List Record) : Prop :=
  es.Pairwise fun a b => a.1 < b.1

structure Records where
  entries : List Record
  ascending : Ascending entries

namespace Records

instance : DecidableEq Records := fun a b =>
  decidable_of_iff (a.entries = b.entries) ⟨fun h => by cases a; cases b; cases h; rfl, fun h => h ▸ rfl⟩

theorem ext {a b : Records} (h : a.entries = b.entries) : a = b := by
  cases a; cases b; cases h; rfl

def empty : Records := ⟨[], .nil⟩

instance : Inhabited Records := ⟨empty⟩

/-! ## Look-up -/

def lookUp (k : Bytes) : List Record → Option Bytes
  | [] => none
  | (k', v) :: es => if k' = k then some v else lookUp k es

def get? (r : Records) (k : Bytes) : Option Bytes :=
  lookUp k r.entries

def size (r : Records) : Nat :=
  r.entries.length

theorem mem_of_lookUp {k v : Bytes} {es : List Record} (h : lookUp k es = some v) : (k, v) ∈ es := by
  induction es with
  | nil => simp [lookUp] at h
  | cons e es ih =>
    by_cases he : e.1 = k
    · subst he; simp only [lookUp, if_true, Option.some.injEq] at h; subst h; simp
    · simp only [lookUp, he, if_false] at h; simp [ih h]

theorem lookUp_of_mem {k v : Bytes} {es : List Record} (hs : Ascending es) (h : (k, v) ∈ es) :
    lookUp k es = some v := by
  induction es with
  | nil => simp at h
  | cons e es ih =>
    replace hs := List.pairwise_cons.1 hs
    rcases List.mem_cons.1 h with rfl | h
    · simp [lookUp]
    · have he : e.1 ≠ k := Bytes.ne_of_lt (hs.1 _ h)
      simp [lookUp, he, ih hs.2 h]

theorem mem_entries_iff {r : Records} {k v : Bytes} : (k, v) ∈ r.entries ↔ r.get? k = some v :=
  ⟨lookUp_of_mem r.ascending, mem_of_lookUp⟩

/-! ## Writing -/

def insertInto (k v : Bytes) : List Record → List Record
  | [] => [(k, v)]
  | e :: es =>
    if k < e.1 then (k, v) :: e :: es
    else if k = e.1 then (k, v) :: es
    else e :: insertInto k v es

def eraseFrom (k : Bytes) (es : List Record) : List Record :=
  es.filter fun e => e.1 ≠ k

theorem mem_insertInto {k v : Bytes} {es : List Record} {e : Record} (h : e ∈ insertInto k v es) :
    e = (k, v) ∨ e ∈ es := by
  induction es with
  | nil => simpa [insertInto] using h
  | cons x es ih =>
    simp only [insertInto] at h
    split at h
    · simpa using h
    · split at h
      · rcases List.mem_cons.1 h with h | h <;> simp [h]
      · rcases List.mem_cons.1 h with h | h
        · simp [h]
        · rcases ih h with h | h <;> simp [h]

theorem ascending_insertInto (k v : Bytes) {es : List Record} (hs : Ascending es) :
    Ascending (insertInto k v es) := by
  induction es with
  | nil => simp [insertInto]
  | cons x es ih =>
    replace hs := List.pairwise_cons.1 hs
    simp only [insertInto]
    split
    · rename_i h
      refine List.pairwise_cons.2 ⟨fun e he => ?_, List.pairwise_cons.2 hs⟩
      rcases List.mem_cons.1 he with rfl | he
      · exact h
      · exact Bytes.lt_trans h (hs.1 e he)
    · split
      · rename_i h
        subst h
        exact List.pairwise_cons.2 hs
      · rename_i h h'
        refine List.pairwise_cons.2 ⟨fun e he => ?_, ih hs.2⟩
        rcases mem_insertInto he with rfl | he
        · exact Bytes.lt_of_not_lt_of_ne h h'
        · exact hs.1 e he

def insert (r : Records) (k v : Bytes) : Records :=
  ⟨insertInto k v r.entries, ascending_insertInto k v r.ascending⟩

def erase (r : Records) (k : Bytes) : Records :=
  ⟨eraseFrom k r.entries, r.ascending.filter _⟩

theorem lookUp_insertInto (k v k' : Bytes) {es : List Record} (hs : Ascending es) :
    lookUp k' (insertInto k v es) = if k = k' then some v else lookUp k' es := by
  induction es with
  | nil => rfl
  | cons x es ih =>
    replace hs := List.pairwise_cons.1 hs
    simp only [insertInto]
    split
    · rfl
    · split
      · rename_i h
        subst h
        by_cases hk : x.1 = k' <;> simp [lookUp, hk]
      · rename_i h h'
        by_cases hk : k = k'
        · subst hk
          have hx : x.1 ≠ k := fun e => h' e.symm
          simp [lookUp, hx, ih hs.2]
        · simp [lookUp, hk, ih hs.2]

theorem get?_insert (r : Records) (k v k' : Bytes) :
    (r.insert k v).get? k' = if k = k' then some v else r.get? k' :=
  lookUp_insertInto k v k' r.ascending

theorem lookUp_eraseFrom (k k' : Bytes) (es : List Record) :
    lookUp k' (eraseFrom k es) = if k = k' then none else lookUp k' es := by
  induction es with
  | nil => simp [eraseFrom, lookUp]
  | cons x es ih =>
    by_cases hx : x.1 = k
    · have he : eraseFrom k (x :: es) = eraseFrom k es := by simp [eraseFrom, hx]
      rw [he, ih]
      by_cases hk : k = k' <;> simp [lookUp, hx, hk]
    · have he : eraseFrom k (x :: es) = x :: eraseFrom k es := by simp [eraseFrom, hx]
      by_cases hy : x.1 = k'
      · subst hy; simp [he, lookUp, Ne.symm hx]
      · simp [he, ih, lookUp, hy]

theorem get?_erase (r : Records) (k k' : Bytes) :
    (r.erase k).get? k' = if k = k' then none else r.get? k' :=
  lookUp_eraseFrom k k' r.entries

/-! ## Ranges -/

/-- Whether a key lies at or above `start` and below `stop`; a bound that is absent does not matter. -/
def inRange (start stop : Option Bytes) (k : Bytes) : Bool :=
  (match start with | some a => !decide (k < a) | none => true) &&
    (match stop with | some b => decide (k < b) | none => true)

/-- The entries of a range in ascending order of keys. -/
def range (r : Records) (start stop : Option Bytes) : List Record :=
  r.entries.filter fun e => inRange start stop e.1

end Records

end ExemptZones
