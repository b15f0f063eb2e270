import ExemptZones.Command.Basic

/-
Options on a command line. A word that starts with a hyphen and has more to it is an option: a long one by its
name after two hyphens, a value after an equals sign or in the next word; or a cluster of short ones, of which
the last may take the rest of the cluster or the next word as its value. After a word of two hyphens no word is
an option.
-/

namespace ExemptZones

inductive Opt where
  | help
  | version
  | config
  | database
  | verbose
  | json
  | authority
  | limit
  | offset
  | page
  | pageKey
  | reverse
  | countTotal
  | outgoing
  | incoming
  | crossZone
  | address
  | out
  | format
  | zone
  deriving DecidableEq, Repr

namespace Opt

def long : Opt → String
  | .help => "--help"
  | .version => "--version"
  | .config => "--config"
  | .database => "--db"
  | .verbose => "--verbose"
  | .json => "--json"
  | .authority => "--authority"
  | .limit => "--limit"
  | .offset => "--offset"
  | .page => "--page"
  | .pageKey => "--page-key"
  | .reverse => "--reverse"
  | .countTotal => "--count-total"
  | .outgoing => "--outgoing"
  | .incoming => "--incoming"
  | .crossZone => "--cross-zone"
  | .address => "--address"
  | .out => "--out"
  | .format => "--format"
  | .zone => "--zone"

def short? : Opt → Option Char
  | .version => some 'v'
  | .config => some 'c'
  | .address => some 'a'
  | .out => some 'o'
  | _ => none

def takesValue : Opt → Bool
  | .help | .version | .verbose | .json | .reverse | .countTotal | .outgoing | .incoming | .crossZone => false
  | _ => true

end Opt

/-- An option that was given, and its value, which is empty if it takes none. -/
abbrev Given := Opt × Text

/-- The words of a command line, told apart. -/
structure Words where
  options : List Given := []
  plain : List Text := []
  deriving DecidableEq, Repr

namespace Words

def addOptions (gs : List Given) (w : Words) : Words :=
  { w with options := gs ++ w.options }

def addPlain (word : Text) (w : Words) : Words :=
  { w with plain := word :: w.plain }

def has (w : Words) (o : Opt) : Bool :=
  w.options.any fun g => g.1 = o

def values (w : Words) (o : Opt) : List Text :=
  (w.options.filter fun g => g.1 = o).map (·.2)

/-- Of values given more than once the last counts. -/
def value? (w : Words) (o : Opt) : Option Text :=
  (w.values o).getLast?

end Words

/-! ## One word -/

open Text (Piece)

/-- What a word is. An option may still wait for its value, which is then the next word. -/
inductive WordKind where
  | stop
  | plain
  | options (given : List Given) (waiting : Option Opt)
  deriving DecidableEq, Repr

/-- A cluster of short options. -/
def cluster (known : List Opt) : List Piece → Except Misuse (List Given × Option Opt)
  | [] => .ok ([], none)
  | p :: ps =>
    match known.find? fun o => o.short?.map .char = some p with
    | none => .error (.unknownOption (.ofPieces [.char '-', p]))
    | some o =>
      if o.takesValue then .ok (if ps.isEmpty then ([], some o) else ([(o, .ofPieces ps)], none))
      else (cluster known ps).map fun (gs, waiting) => ((o, .plain "") :: gs, waiting)

/-- An option in its long form, with the value after an equals sign if there is one. -/
def longOption (o : Opt) : Option Text → Except Misuse WordKind
  | none => .ok (if o.takesValue then .options [] (some o) else .options [(o, .plain "")] none)
  | some v => if o.takesValue then .ok (.options [(o, v)] none) else .error (.unexpectedValue o.long)

/-- A word at its first equals sign. -/
def atEquals (ps : List Piece) : Text × Option Text :=
  match ps.dropWhile (· ≠ .char '=') with
  | [] => (.ofPieces ps, none)
  | _ :: v => (.ofPieces (ps.takeWhile (· ≠ .char '=')), some (.ofPieces v))

def classify (known : List Opt) (word : Text) : Except Misuse WordKind :=
  match word.pieces with
  | [.char '-', .char '-'] => .ok .stop
  | .char '-' :: .char '-' :: _ =>
    let (name, v?) := atEquals word.pieces
    match known.find? fun o => .plain o.long = name with
    | some o => longOption o v?
    | none => .error (.unknownOption name)
  | .char '-' :: p :: ps => (cluster known (p :: ps)).map fun (gs, waiting) => .options gs waiting
  | _ => .ok .plain

/-! ## All words -/

/-- Tells words apart while an option may wait for its value. -/
def scanFrom (anywhere : Bool) (known : List Opt) : Option Opt → List Text → Except Misuse Words
  | none, [] => .ok {}
  | some o, [] => .error (.missingValue o.long)
  | some o, w :: ws => (scanFrom anywhere known none ws).map (·.addOptions [(o, w)])
  | none, w :: ws =>
    match classify known w with
    | .error e => .error e
    | .ok .stop => .ok { plain := ws }
    | .ok .plain =>
      if anywhere then (scanFrom anywhere known none ws).map (·.addPlain w) else .ok { plain := w :: ws }
    | .ok (.options gs waiting) => (scanFrom anywhere known waiting ws).map (·.addOptions gs)

/-- Tells the words of a command line apart. Unless options may come `anywhere`, the first plain word ends them. -/
def scan (anywhere : Bool) (known : List Opt) (words : List Text) : Except Misuse Words :=
  scanFrom anywhere known none words

end ExemptZones
