import ExemptZones.Config
import ExemptZones.Genesis.State
import ExemptZones.Text.Lines
import ExemptZones.Yaml.Document
import ExemptZones.Yaml.Writer

/-
Documents in files. The name of a file says how it is written: JSON if its suffix is exactly `.json`, YAML
otherwise. A list of addresses is a YAML list or plain text with one address a line.
-/

namespace ExemptZones

namespace Loading

/-- The part of a name from its last point on; a point at either end does not count. -/
def suffix (name : Text) : Text :=
  let ps := name.pieces
  let tail := (ps.reverse.takeWhile (· ≠ .char '.')).reverse
  let size := tail.length
  if size = 0 || size + 2 > ps.length then ""
  else .ofPieces (.char '.' :: tail)

def isJson (name : Text) : Bool :=
  suffix name = ".json"

/-- The text of a file. -/
def fileText (b : Bytes) : Except Failure String :=
  match Utf8.decode? b with
  | some s => .ok (String.ofList (Text.unifyBreaks s.toList))
  | none => .error .notUtf8

def document (name : Text) (b : Bytes) : Except Failure Value := do
  let s ← fileText b
  if isJson name then
    match Json.read .kept s with
    | some v => .ok v
    | none => .error .notJson
  else (Yaml.read s).mapError (·.failure)

/-- An empty document counts as one without fields. -/
def orEmpty (v : Value) : Value :=
  if v.isEmpty then .map [] else v

def genesis (name : Text) (b : Bytes) : Except Failure GenesisDraft := do
  let v ← document name b
  (GenesisDraft.ofValue (orEmpty v)).mapError (.misshapen GenesisDraft.title)

def config (name : Text) (b : Bytes) : Except Failure Config := do
  let v ← document name b
  (Config.ofValue (orEmpty v)).mapError (.misshapen Config.title)

/-- The addresses in the lines of a text: what stands before a `#`, unless it is blank. -/
def addressLines (cs : List Char) : List Text :=
  (Text.splitLines cs).filterMap fun l =>
    let a := Text.trimBy Text.isBlank (l.takeWhile (· ≠ '#'))
    if a.isEmpty then none else some (.plain (String.ofList a))

/-- A list of addresses. Even plain text must be readable as YAML. -/
def addresses (b : Bytes) : Except Failure (List Text) := do
  let s ← fileText b
  match ← (Yaml.read s).mapError (·.failure) with
  | .list items => return items.map fun v => v.alone.strip
  | _ => return addressLines s.toList

end Loading

namespace GenesisState

/-- How a genesis state is written. -/
inductive Format where
  | json
  | yaml
  deriving DecidableEq, Repr

def Format.ofName (name : Text) : Format :=
  if Loading.isJson name then .json else .yaml

def write (s : GenesisState) : Format → String
  | .json => Json.write .pretty s.toValue
  | .yaml => Yaml.write s.toValue

end GenesisState

end ExemptZones
