import ExemptZones.Failure
import ExemptZones.Store.Records
import ExemptZones.Text.Utf8

/-
The records of a store in a file. The file begins with a mark that no text has. A byte string is written with a
one before each byte and a zero at its end, a record as its key and its value with a one before them, and a zero
ends the file.

`decode?_encode`: what was written reads back.
-/

namespace ExemptZones.Store.File

/-! ## Records in order -/

/-- The keys ascend from one record to the next. -/
def steps : List Record → Bool
  | a :: b :: es => a.1 < b.1 && steps (b :: es)
  | _ => true

theorem ascending_of_steps {es : List Record} (h : steps es = true) : Ascending es := by
  induction es with
  | nil => exact .nil
  | cons a es ih =>
    cases es with
    | nil => simp
    | cons b es =>
      simp only [steps, Bool.and_eq_true, decide_eq_true_eq] at h
      have hb := ih h.2
      refine List.Pairwise.cons (fun e he => ?_) hb
      rcases List.mem_cons.1 he with rfl | he
      · exact h.1
      · exact Bytes.lt_trans h.1 (List.rel_of_pairwise_cons hb he)

theorem steps_of_ascending {es : List Record} (h : Ascending es) : steps es = true := by
  induction es with
  | nil => rfl
  | cons a es ih =>
    cases es with
    | nil => rfl
    | cons b es =>
      simp only [steps, Bool.and_eq_true, decide_eq_true_eq]
      exact ⟨List.rel_of_pairwise_cons h (by simp), ih (List.Pairwise.of_cons h)⟩

/-! ## Byte strings -/

def encodeBytes : Bytes → Bytes
  | [] => [0]
  | b :: bs => 1 :: b :: encodeBytes bs

def decodeBytes? : Bytes → Option (Bytes × Bytes)
  | [] => none
  | 0 :: rest => some ([], rest)
  | [_] => none
  | c :: b :: rest => if c = 1 then (decodeBytes? rest).map fun (bs, r) => (b :: bs, r) else none

theorem decodeBytes?_encodeBytes (bs rest : Bytes) : decodeBytes? (encodeBytes bs ++ rest) = some (bs, rest) := by
  induction bs with
  | nil => rfl
  | cons b bs ih => simp [encodeBytes, decodeBytes?, ih]

/-! ## Records -/

def encodeRecords : List Record → Bytes
  | [] => [0]
  | (k, v) :: es => 1 :: encodeBytes k ++ encodeBytes v ++ encodeRecords es

theorem length_of_decodeBytes? {b bs rest : Bytes} (h : decodeBytes? b = some (bs, rest)) :
    rest.length < b.length := by
  fun_induction decodeBytes? b generalizing bs rest with
  | case1 => cases h
  | case2 => cases h; simp
  | case3 => cases h
  | case4 b r _ ih =>
    obtain ⟨⟨bs', r'⟩, hr, he⟩ := Option.map_eq_some_iff.1 h
    cases he
    have := ih hr
    simp only [List.length_cons]; omega
  | case5 => cases h

def decodeRecords? : Bytes → Option (List Record)
  | [] => none
  | c :: b =>
    if c = 0 then if b.isEmpty then some [] else none
    else
      match h : decodeBytes? b with
      | none => none
      | some (k, b') =>
        match h' : decodeBytes? b' with
        | none => none
        | some (v, b'') =>
          have := length_of_decodeBytes? h
          have := length_of_decodeBytes? h'
          (decodeRecords? b'').map ((k, v) :: ·)
termination_by b => b.length
decreasing_by simp only [List.length_cons]; omega

theorem decodeRecords?_encodeRecords (es : List Record) : decodeRecords? (encodeRecords es) = some es := by
  induction es with
  | nil => simp [encodeRecords, decodeRecords?]
  | cons e es ih =>
    obtain ⟨k, v⟩ := e
    have hk := decodeBytes?_encodeBytes k (encodeBytes v ++ encodeRecords es)
    have hv := decodeBytes?_encodeBytes v (encodeRecords es)
    rw [encodeRecords, List.cons_append, List.cons_append, List.append_assoc, decodeRecords?, if_neg (by decide)]
    split
    · rename_i h; rw [hk] at h; cases h
    · rename_i k' b' h
      rw [hk] at h
      cases h
      split
      · rename_i h'; rw [hv] at h'; cases h'
      · rename_i v' b'' h'
        rw [hv] at h'
        cases h'
        simp [ih]

/-! ## Files -/

def mark : Bytes :=
  Utf8.encode "zone registry" ++ [0xff, 0]

def encode (r : Records) : Bytes :=
  mark ++ encodeRecords r.entries

def decode? (b : Bytes) : Option Records := do
  if b.take mark.length ≠ mark then none
  let es ← decodeRecords? (b.drop mark.length)
  if h : steps es = true then some ⟨es, ascending_of_steps h⟩ else none

theorem decode?_encode (r : Records) : decode? (encode r) = some r := by
  have h : (encode r).take mark.length = mark := by simp [encode]
  have h' : (encode r).drop mark.length = encodeRecords r.entries := by simp [encode]
  simp [decode?, h, h', decodeRecords?_encodeRecords, steps_of_ascending r.ascending]

/-- What is said of a file that holds something else. -/
def foreignText : String := "file is not a database"

/-- The records in a file. A file of no more than one byte is one that has not been used yet. -/
def read (b : Bytes) : Except Cause Records :=
  if b.length ≤ 1 then .ok .empty
  else
    match decode? b with
    | some r => .ok r
    | none => .error (.writeFailed "init_schema" foreignText)

theorem read_encode (r : Records) : read (encode r) = .ok r := by
  have h : ¬ (encode r).length ≤ 1 := by
    simp only [encode, mark, List.length_append, List.length_cons, List.length_nil]; omega
  simp only [read, if_neg h, decode?_encode]

end ExemptZones.Store.File
