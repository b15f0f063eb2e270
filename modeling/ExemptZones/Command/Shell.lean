import ExemptZones.Command.Basic
import ExemptZones.Command.Files
import ExemptZones.Command.Wording
import ExemptZones.Config
import ExemptZones.Registry.Basic
import ExemptZones.Store.File

/-
The work of a command around the registry: it sees files, prints, works on the store in a database file, and
ends in one of several ways. What was printed and written before an end stays.
-/

namespace ExemptZones

/-- How a run ends. -/
inductive Ending where
  | success
  /-- There is no database to ask. -/
  | noDatabase
  /-- A failure that the command tells of. -/
  | reported (f : Failure)
  /-- A failure that the command is not prepared for. -/
  | stopped (f : Failure)
  | misused (m : Misuse)
  deriving DecidableEq, Repr

namespace Ending

def exitCode : Ending → Nat
  | .success => 0
  | .noDatabase | .reported _ | .stopped _ => 1
  | .misused _ => 2

end Ending

/-- What a run has printed and logged, the log in order. -/
structure Transcript where
  output : String := ""
  log : List Log.Entry := []
  deriving DecidableEq, Repr

/-- Where a command runs: its directory, the configuration file named there, if the text is not empty, and the
terminal that it prints on. -/
structure Place where
  directory : Text
  config : Text := ""
  terminal : Terminal := .unicode

abbrev Shell (m : Type → Type) (α : Type) := ExceptT Ending (StateT Transcript m) α

namespace Shell

variable {m : Type → Type} [Monad m] {α : Type}

def stop (e : Ending) : Shell m α :=
  throw e

/-! ## Printing -/

/-- Prints text that its output can take; a command is not prepared for other text. -/
def print (place : Place) (text : Text) : Shell m Unit :=
  match place.terminal.printed? text with
  | some s => modify fun t => { t with output := t.output ++ s }
  | none => stop (.stopped .unencodable)

def line (place : Place) (text : Text) : Shell m Unit :=
  print place (text ++ "\n")

/-- Prints a marked-up message. -/
def say (place : Place) (message : Text) : Shell m Unit :=
  match place.terminal.render message with
  | .ok text => line place text
  | .error f => stop (.stopped f)

/-- Tells of a failure and ends the run. -/
def report (place : Place) (json : Bool) (f : Failure) : Shell m α := do
  if json then line place f.toJson else say place (f.toMarkup place.terminal "Error")
  stop (.reported f)

/-- The outcome of some work, of whose failures only some are told. -/
def orReport (place : Place) (told : Failure → Bool) (json : Bool) : Except Failure α → Shell m α
  | .ok a => return a
  | .error f => if told f then report place json f else stop (.stopped f)

/-! ## Files -/

variable [Files m]

/-- What stands under a name. -/
def find (name : Bytes) : Shell m Entry :=
  liftM (Files.look name : m Entry)

/-- What stands at a path. A command is not prepared for one that no file has. -/
def look (path : Text) : Shell m Entry :=
  match Path.name path with
  | .ok name => find name
  | .error f => stop (.stopped f)

def write (path : Text) (b : Bytes) : Shell m Unit :=
  match Path.name path with
  | .ok name => liftM (Files.write name b : m Unit)
  | .error f => stop (.stopped f)

/-- The absolute path of something that need not be there. -/
def resolve (place : Place) (path : Text) : Shell m Text := do
  let p := Path.absolute place.directory path
  let _ ← look p
  return p

/-- The absolute path of something that must be there. -/
def present (place : Place) (path : Text) : Shell m Text := do
  let p := Path.absolute place.directory path
  if !(← look p).isThere then stop (.misused (.noSuchFile p))
  return p

/-- What a file is read as. -/
def readFile (path : Text) (read : Text → Bytes → Except Failure α) : Shell m (Except Failure α) := do
  return (← look path).content path >>= read (Path.fileName path)

/-- Writes a file where one can stand. -/
def save (path : Text) (b : Bytes) : Shell m Unit := do
  if (← look path) = .directory then stop (.stopped (.isDirectory path))
  if (← look (Path.parent path)) ≠ .directory then stop (.stopped (.missingFile path))
  write path b

/-! ## The database -/

/-- The path of a database that is kept nowhere. -/
def memory : Text := ":memory:"

/-- What is said of a path where no database can stand. -/
def cannotOpenText : String := "unable to open database file"

/-- Whether there is something at the path of a database. -/
def isThere (place : Place) (path : Text) : Shell m Bool :=
  match Path.name (Path.absolute place.directory path) with
  | .ok name => return (← find name).isThere
  | .error _ => return false

/-- Opens the database at a path. One that has not been used yet is written as empty. -/
def openDatabase (place : Place) (path : Text) : Shell m (Except Failure Records) := do
  if path = memory then return .ok .empty
  let p := Path.absolute place.directory path
  let cannot : Failure := .registry (.cannotOpen (Path.tidy path) cannotOpenText)
  match Path.name p with
  | .error f => return .error f
  | .ok name =>
    match ← find name with
    | .directory => return .error cannot
    | .absent =>
      if (← look (Path.parent p)) ≠ .directory then return .error cannot
      write p (Store.File.encode .empty)
      return .ok .empty
    | .file b =>
      if b.length ≤ 1 then write p (Store.File.encode .empty)
      return (Store.File.read b).mapError .registry

/-- Works on the records of the database at a path and writes what was committed. -/
def work (place : Place) (path : Text) (r : Records) (a : Action α) : Shell m (Except Failure α) := do
  let (result, s) := a.run { store := .ofRecords r }
  modify fun t => { t with log := t.log ++ s.log.reverse }
  let now := s.store.committed
  if path ≠ memory && now ≠ r then write (Path.absolute place.directory path) (Store.File.encode now)
  return result

/-- Opens the database and works on it. -/
def workOn (place : Place) (path : Text) (a : Action α) : Shell m (Except Failure α) := do
  match ← openDatabase place path with
  | .ok r => work place path r a
  | .error f => return .error f

end Shell

end ExemptZones
