import ExemptZones.Failure
import ExemptZones.Text.Lines
import ExemptZones.Text.Utf8

/-
Files, as far as commands need them: what stands at a path, and how something is written there. Paths that
commands ask for are absolute. A path is a text, and a file stands under a name of bytes, which may be the encoded form
of no text: then a half of a surrogate pair in the path stands for each byte that is part of no character. `Disk` keeps
files in memory.

`Path.name`: the name of the file at a path.
`Disk.look_put_self`, `Disk.entry_put_other`: what writing does to what is seen.
-/

namespace ExemptZones

/-! ## Paths -/

namespace Path

def parts (p : Text) : List Text :=
  ((Text.splitAt (.char '/') p.pieces).filter fun s => !s.isEmpty && s ≠ [.char '.']).map .ofPieces

/-- Takes each `..` together with the part before it. -/
def ascend (ps : List Text) : List Text :=
  (ps.foldl (fun done (p : Text) => if p = ".." then done.tail else p :: done) []).reverse

/-- Parts with a slash between each two. -/
def join : List Text → Text
  | [] => ""
  | [p] => p
  | p :: ps => p ++ "/" ++ join ps

def ofParts (ps : List Text) : Text :=
  "/" ++ join ps

def isAbsolute (p : Text) : Bool :=
  p.pieces.head? = some (.char '/')

/-- The path as seen from a directory. -/
def absolute (directory p : Text) : Text :=
  if isAbsolute p then ofParts (ascend (parts p)) else ofParts (ascend (parts directory ++ parts p))

/-- The directory of an absolute path. -/
def parent (p : Text) : Text :=
  ofParts (parts p).dropLast

/-- The last part of a path. -/
def fileName (p : Text) : Text :=
  (parts p).getLastD ""

/-- A path without what does not matter in it: empty parts, single points and a slash at the end. -/
def tidy (p : Text) : Text :=
  if isAbsolute p then ofParts (parts p)
  else if (parts p).isEmpty then "."
  else join (parts p)

/-! ## Names -/

/-- The bytes that a piece of a path stands for. There is a half for each byte that is not of ASCII; other halves stand
for nothing. -/
def bytes? : Text.Piece → Option Bytes
  | .char c => some (Utf8.encode (String.singleton c))
  | .half n => if 0xdc80 ≤ n && n ≤ 0xdcff then some [UInt8.ofNat n] else none

/-- The name of the file at a path. -/
def name (p : Text) : Except Failure Bytes :=
  match p.pieces.mapM bytes? with
  | some bs => if bs.flatten.contains 0 then .error .zeroByte else .ok bs.flatten
  | none => .error .unencodable

/-- The directories that the file of an absolute name lies in. -/
def above (name : Bytes) : List Bytes :=
  ((List.range name.length).filter fun i => name[i]? = some 0x2f).map fun i => if i = 0 then [0x2f] else name.take i

end Path

/-! ## Files -/

/-- What stands at a path. -/
inductive Entry where
  | absent
  | file (content : Bytes)
  | directory
  deriving DecidableEq, Repr

namespace Entry

def isThere : Entry → Bool
  | .absent => false
  | _ => true

/-- The content of a file. -/
def content (path : Text) : Entry → Except Failure Bytes
  | .file b => .ok b
  | .directory => .error (.isDirectory path)
  | .absent => .error (.missingFile path)

end Entry

/-- Work that can see and write files. Writing is asked for only where a file can stand. -/
class Files (m : Type → Type) where
  look (name : Bytes) : m Entry
  write (name : Bytes) (content : Bytes) : m Unit

/-! ## Files in memory -/

/-- Files by their absolute names, and the directories beside those that the files lie in. -/
structure Disk where
  files : List (Bytes × Bytes) := []
  directories : List Bytes := []
  deriving DecidableEq, Repr

namespace Disk

def holds (d : Disk) (directory : Bytes) : Bool :=
  d.directories.contains directory || d.files.any fun (n, _) => (Path.above n).contains directory

/-- What stands under a name. -/
def entry (d : Disk) (name : Bytes) : Entry :=
  match d.files.lookup name with
  | some b => .file b
  | none => if d.holds name then .directory else .absent

/-- What stands at a path. -/
def look (d : Disk) (path : Text) : Except Failure Entry :=
  (Path.name path).map d.entry

def put (d : Disk) (name : Bytes) (b : Bytes) : Disk :=
  { d with files := (name, b) :: d.files.filter fun (n, _) => n ≠ name }

instance : Files (StateM Disk) where
  look name := return (← get).entry name
  write name b := modify fun d => d.put name b

section

variable {d : Disk} {name other : Bytes} {path : Text} {b c : Bytes} {e : Entry}

theorem look_eq_ok_iff : d.look path = .ok e ↔ ∃ n, Path.name path = .ok n ∧ d.entry n = e := by
  unfold look
  cases Path.name path <;> simp [Except.map]

theorem entry_put_self (d : Disk) (name b : Bytes) : (d.put name b).entry name = .file b := by
  simp [put, entry]

theorem look_put_self (h : Path.name path = .ok name) : (d.put name b).look path = .ok (.file b) :=
  look_eq_ok_iff.2 ⟨name, h, entry_put_self d name b⟩

theorem lookup_filter (h : other ≠ name) (fs : List (Bytes × Bytes)) :
    (fs.filter fun (n, _) => n ≠ name).lookup other = fs.lookup other := by
  induction fs with
  | nil => rfl
  | cons f fs ih =>
    obtain ⟨n, b⟩ := f
    by_cases hn : n = name
    · subst hn
      have ho : (other == n) = false := by simpa using h
      rw [List.filter_cons_of_neg (by simp), List.lookup_cons, ho, ih]
    · rw [List.filter_cons_of_pos (by simp [hn]), List.lookup_cons, List.lookup_cons, ih]

theorem entry_eq_file_iff : d.entry name = .file b ↔ d.files.lookup name = some b := by
  unfold entry
  split
  · rename_i h; simp [h]
  · rename_i h; split <;> simp [h]

theorem entry_put_other (h : other ≠ name) : (d.put name b).entry other = .file c ↔ d.entry other = .file c := by
  have ho : (other == name) = false := by simpa using h
  rw [entry_eq_file_iff, entry_eq_file_iff, put, List.lookup_cons, ho, lookup_filter h]

end

end Disk

end ExemptZones
