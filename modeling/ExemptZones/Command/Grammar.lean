import ExemptZones.Command.Options
import ExemptZones.Decimal.Digits
import ExemptZones.Registry.Migration

/-
The commands: for each the options that it knows and what it makes of its words.
-/

namespace ExemptZones

/-- How the words of one command are read. -/
structure Usage where
  options : List Opt
  read : Words → Except Misuse Command

namespace Usage

/-! ## Arguments -/

def noArguments (w : Words) : Except Misuse Unit :=
  match w.plain with
  | [] => .ok ()
  | a :: _ => .error (.extraArgument a)

def oneArgument (name : String) (w : Words) : Except Misuse Text :=
  match w.plain with
  | [] => .error (.missingArgument name)
  | [a] => .ok a
  | _ :: a :: _ => .error (.extraArgument a)

def twoArguments (first second : String) (w : Words) : Except Misuse (Text × Text) :=
  match w.plain with
  | [] => .error (.missingArgument first)
  | [_] => .error (.missingArgument second)
  | [a, b] => .ok (a, b)
  | _ :: _ :: a :: _ => .error (.extraArgument a)

/-- One argument, and one or more after it. -/
def manyArguments (first others : String) (w : Words) : Except Misuse (Text × List Text) :=
  match w.plain with
  | [] => .error (.missingArgument first)
  | [_] => .error (.missingArgument others)
  | a :: as => .ok (a, as)

/-- An integer that is not too small. -/
def natural (w : Words) (o : Opt) (least default : Nat) : Except Misuse Nat :=
  match w.value? o with
  | none => .ok default
  | some s =>
    match Decimal.readInteger? s with
    | none => .error (.notInteger o.long s)
    | some i => if i < least then .error (.tooSmall o.long least) else .ok i.toNat

/-! ## Parts of commands -/

def excerptOptions : List Opt :=
  [.limit, .offset, .page, .pageKey, .reverse, .countTotal]

def excerpt (w : Words) : Except Misuse Excerpt := do
  return {
    limit := ← natural w .limit 0 0
    offset := ← natural w .offset 0 0
    page := ← natural w .page 1 1
    pageKey := (w.value? .pageKey).getD (.plain "")
    reverse := w.has .reverse
    countTotal := w.has .countTotal }

def flags (w : Words) : Flags :=
  ⟨w.has .outgoing, w.has .incoming, w.has .crossZone⟩

def placeOptions : List Opt := [.config, .database, .verbose]

/-! ## Commands -/

def taxable : Usage :=
  ⟨.json :: placeOptions, fun w => do
    let (s, r) ← twoArguments "FROM_ADDRESS" "TO_ADDRESS" w
    let party (a : Text) : Party := if a.isEmpty then .unspecified else .ofText a
    return .taxable (party s) (party r)⟩

def zones : Usage :=
  ⟨.json :: excerptOptions ++ placeOptions, fun w => do
    noArguments w
    return .zones (← excerpt w)⟩

def addresses : Usage :=
  ⟨.json :: excerptOptions ++ placeOptions, fun w => do
    let zone ← if w.plain.isEmpty then pure (.plain "") else oneArgument "ZONE" w
    return .addresses zone (← excerpt w)⟩

def zone : Usage :=
  ⟨.json :: placeOptions, fun w => return .zone (← oneArgument "NAME" w)⟩

/-- Setting the flags of a zone and adding addresses to it. -/
def zoneChange (k : MessageKind) : Usage :=
  ⟨[.outgoing, .incoming, .crossZone, .address, .authority] ++ placeOptions, fun w => do
    return .change k (w.value? .authority) (← oneArgument "NAME" w) (flags w) (w.values .address)⟩

def zoneRemoval : Usage :=
  ⟨.authority :: placeOptions, fun w => do
    return .change .removeZone (w.value? .authority) (← oneArgument "NAME" w) {} []⟩

def memberChange (k : MessageKind) : Usage :=
  ⟨.authority :: placeOptions, fun w => do
    let (zone, as) ← manyArguments "ZONE" "ADDRESSES" w
    return .change k (w.value? .authority) zone {} as⟩

def validateGenesis : Usage :=
  ⟨[.config, .json, .verbose], fun w => return .validateGenesis (← oneArgument "PATH" w)⟩

def importGenesis : Usage :=
  ⟨placeOptions, fun w => return .importGenesis (← oneArgument "PATH" w)⟩

def exportGenesis : Usage :=
  ⟨[.out, .format] ++ placeOptions, fun w => do
    noArguments w
    return .exportGenesis (w.value? .out) ((w.value? .format).getD (.plain "json"))⟩

def migrate : Usage :=
  ⟨.zone :: placeOptions, fun w => do
    return .migrate (← oneArgument "PATH" w) ((w.value? .zone).getD (.plain Registry.legacyZoneName))⟩

/-- The words after a command's name. -/
def request (u : Usage) (words : List Text) : Except Misuse Request := do
  let w ← scan true (.help :: u.options) words
  if w.has .help then return .help
  return .run {
    command := ← u.read w
    config := w.value? .config
    database := w.value? .database
    json := w.has .json
    verbose := w.has .verbose }

end Usage

namespace Request

/-- The commands that stand under a word. -/
def groups : List (String × List (String × Usage)) :=
  [("query", [("taxable", .taxable), ("zones", .zones), ("addresses", .addresses), ("zone", .zone)]),
    ("tx", [("add-zone", .zoneChange .addZone), ("modify-zone", .zoneChange .modifyZone),
      ("remove-zone", .zoneRemoval), ("add-address", .memberChange .addAddresses),
      ("remove-address", .memberChange .removeAddresses)]),
    ("genesis", [("validate", .validateGenesis), ("import", .importGenesis), ("export", .exportGenesis)])]

/-- The words after a group's name. -/
def readGroup (commands : List (String × Usage)) (words : List Text) : Except Misuse Request := do
  let w ← scan false [.help] words
  if w.has .help then return .help
  match w.plain with
  | [] => throw .missingCommand
  | name :: rest =>
    match (name.plain?.bind fun n => commands.lookup n) with
    | some u => u.request rest
    | none => throw (.unknownCommand name)

/-- The words of a whole command line. Of the version and help the one asked for first is shown. -/
def read (words : List Text) : Except Misuse Request := do
  let w ← scan false [.help, .version] words
  match w.options, w.plain with
  | (.version, _) :: _, _ => return .version
  | _ :: _, _ => return .help
  | [], [] => throw .missingCommand
  | [], name :: rest =>
    match (name.plain?.bind fun n => groups.lookup n) with
    | some commands => readGroup commands rest
    | none => if name = .plain "migrate-legacy" then Usage.migrate.request rest else throw (.unknownCommand name)

end Request

end ExemptZones
