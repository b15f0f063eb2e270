import ExemptZones.Failure
import ExemptZones.Log
import ExemptZones.Store.Records

/-
The store: an ordered map of records with transactions. It holds the records as committed and as
they stand now. A write outside a transaction commits at once; a transaction commits when its
outermost block ends, or goes back to the committed records when a failure leaves that block.
Blocks inside a block join it.

Another connection may hold the database: then records are read and written as ever, but the database takes none
of them in. A write outside a transaction that is refused stays in the records as they stand. The database may also
go away under the store, or the store may be closed. From then on nothing can be read or written.
-/

namespace ExemptZones

inductive Link where
  | live
  /-- Another connection reads the database; something that was written may be waiting for it. -/
  | held (waiting : Bool)
  | broken
  | closed
  deriving DecidableEq, Repr

namespace Link

/-- The link after a write. -/
def wrote : Link → Link
  | .held _ => .held true
  | l => l

/-- The link when nothing is waiting any more. -/
def eased : Link → Link
  | .held _ => .held false
  | l => l

/-- Why the database does not take in what was written. -/
def refusal? : Link → Option Failure
  | .live | .held false => none
  | .held true => some .locked
  | .broken => some .disconnected
  | .closed => some .closed

/-- Why the database does not give its records back. -/
def loss? : Link → Option Failure
  | .live | .held _ => none
  | .broken => some .disconnected
  | .closed => some .closed

end Link

structure Store where
  committed : Records
  working : Records
  /-- How many transaction blocks are open. -/
  depth : Nat
  link : Link
  deriving DecidableEq

namespace Store

def ofRecords (r : Records) : Store := ⟨r, r, 0, .live⟩

def empty : Store := ofRecords .empty

instance : Inhabited Store := ⟨empty⟩

def inTransaction (s : Store) : Bool :=
  s.depth > 0

/-- Takes the records as they stand into the database. -/
def commit (s : Store) : Store :=
  { s with committed := s.working }

/-- Goes back to the records in the database. -/
def rollBack (s : Store) : Store :=
  { s with working := s.committed, link := s.link.eased }

/-- Commits unless a transaction is open. -/
def settle (s : Store) : Store :=
  if s.inTransaction then s else s.commit

/-- Has other records, which wait to be committed. -/
def wrote (s : Store) (r : Records) : Store :=
  { s with working := r, link := s.link.wrote }

/-- The database goes away, and with it what was not committed. -/
def sever (s : Store) : Store :=
  match s.link with
  | .live | .held _ => { s.rollBack with link := .broken }
  | _ => s

def close (s : Store) : Store :=
  { s.rollBack with link := .closed }

end Store

/-- A store and what was logged while working on it, the latest entry first. -/
structure Session where
  store : Store
  log : List Log.Entry := []

/-- Work on a store. What was done before a failure stays done, unless a transaction takes it back. -/
abbrev Action (α : Type) := ExceptT Failure (StateM Session) α

namespace Action

variable {α : Type}

def run (a : Action α) (s : Session) : Except Failure α × Session :=
  StateT.run (ExceptT.run a) s

def ofRun (f : Session → Except Failure α × Session) : Action α :=
  ExceptT.mk (fun s => f s)

def fail (f : Failure) : Action α :=
  throw f

def blame (c : Cause) : Action α :=
  throw (.registry c)

def ofExcept : Except Failure α → Action α
  | .ok a => pure a
  | .error f => throw f

/-- A value of the expected shape; `title` says which. -/
def ofChecked (title : String) : Shape.Checked α → Action α
  | .ok a => pure a
  | .error fs => throw (.misshapen title fs)

def note (e : Log.Entry) : Action Unit :=
  modify fun s => { s with log := e :: s.log }

def store : Action Store :=
  return (← get).store

def setStore (s : Store) : Action Unit :=
  modify fun t => { t with store := s }

end Action

namespace Store

open ExemptZones.Action

/-- What the database says once it is gone. -/
def goneText : String := "Cannot operate on a closed database."

/-- What the database says while another connection holds it. -/
def lockedText : String := "database is locked"

/-- The store, if it can be reached; `lost` is the report when the database is gone. -/
def reach (lost : Cause) : Action Store := do
  let s ← Action.store
  match s.link with
  | .live | .held _ => return s
  | .broken => blame lost
  | .closed => fail .closed

def get (k : Bytes) : Action (Option Bytes) := do
  return (← reach (.readFailed "get" goneText)).working.get? k

def has (k : Bytes) : Action Bool := do
  return (← get k).isSome

/-- Writes records. Outside a transaction they are committed at once; if the database does not take them, they stay
written. -/
def put (operation : String) (s : Store) (r : Records) : Action Unit := do
  let s := s.wrote r
  if !s.inTransaction && s.link.refusal?.isSome then
    setStore s
    blame (.writeFailed operation lockedText)
  setStore s.settle

def set (k v : Bytes) : Action Unit := do
  let s ← reach (.writeFailed "set" goneText)
  put "set" s (s.working.insert k v)

def delete (k : Bytes) : Action Unit := do
  let s ← reach (.writeFailed "delete" goneText)
  put "delete" s (s.working.erase k)

/-- Entries in ascending order, or descending. -/
def ordered (reverse : Bool) (es : List Record) : List Record :=
  if reverse then es.reverse else es

/-- The entries of a range as they stand now; later writes do not change the answer. -/
def scan (start stop : Option Bytes) (reverse : Bool) : Action (List Record) := do
  let s ← reach (.readFailed "iterate" goneText)
  return ordered reverse (s.working.range start stop)

/-! ## Transactions -/

/-- Takes back an outermost block that failed with `f`. A database that is gone fails in its own way. -/
def abort (f : Failure) (s : Session) : Failure × Session :=
  if s.store.depth = 1 then
    match s.store.link.loss? with
    | some g => (g, s)
    | none => (f, { store := s.store.rollBack, log := .rolledBack :: s.log })
  else (f, s)

/-- Ends a block: an outermost one commits or takes back, any other leaves that to the block around it. What the
database does not take in is taken back. -/
def endBlock {α : Type} : Except Failure α × Session → Except Failure α × Session
  | (.ok a, s) =>
    if s.store.depth = 1 then
      match s.store.link.refusal? with
      | some g =>
        let (g, s) := abort g s
        (.error g, s)
      | none => (.ok a, { s with store := s.store.commit })
    else (.ok a, s)
  | (.error f, s) =>
    let (g, s) := abort f s
    (.error g, s)

def enter (s : Session) : Session :=
  { s with store := { s.store with depth := s.store.depth + 1 } }

def leave (s : Session) : Session :=
  { s with store := { s.store with depth := s.store.depth - 1 } }

/-- Work whose writes are committed together or not at all. -/
def transaction {α : Type} (body : Action α) : Action α :=
  ofRun fun s =>
    let (r, s) := endBlock (body.run (enter s))
    (r, leave s)

end Store

end ExemptZones
