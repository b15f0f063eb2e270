import ExemptZones.Command.Grammar
import ExemptZones.Command.Shell
import ExemptZones.Console.Table
import ExemptZones.Loading
import ExemptZones.Registry.Genesis
import ExemptZones.Registry.Messages
import ExemptZones.Registry.Queries

/-
Running commands. A command reads its configuration, then works on the database and tells what came of it.
-/

namespace ExemptZones

namespace Failure

/-- Failures of the registry itself. -/
def isOfRegistry : Failure → Bool
  | .registry _ => true
  | _ => false

/-- Failures of the registry, and documents that do not read or fit. -/
def isOfDocument : Failure → Bool
  | .registry _ | .misshapen _ _ | .notYaml _ | .notJson | .notUtf8 | .unencodable | .zeroByte => true
  | .badScalar k => k ≠ .flag && k ≠ .date
  | _ => false

/-- Failures of the registry, and lists that are no YAML. -/
def isOfList : Failure → Bool
  | .registry _ | .notYaml _ => true
  | _ => false

/-- Failures that are told when the configuration is read. -/
def isOfConfig : Failure → Bool
  | .misshapen _ _ | .notYaml _ | .missingFile _ | .isDirectory _ => true
  | _ => false

end Failure

/-- What the registry is set up with. -/
def Config.settings (c : Config) : Registry.Settings :=
  ⟨c.authority, c.addressPrefix⟩

namespace Shell

variable {m : Type → Type} [Monad m] [Files m]

/-! ## Configuration -/

/-- The configuration in a file; the default one for none. -/
def configuration (place : Place) (file : Option Text) : Shell m Config := do
  let some path := file | return {}
  match ← readFile path Loading.config with
  | .ok c => return c
  | .error f =>
    if !f.isOfConfig then stop (.stopped f)
    say place (f.toMarkup place.terminal "Error loading config")
    stop (.reported f)

/-- The configuration with the database that was named on the command line. -/
def withDatabase (database : Option Text) (c : Config) : Config :=
  { c with dbPath := database.getD c.dbPath }

/-! ## What is shown -/

def flagCell (b : Bool) : Text :=
  if b then "yes" else "no"

def zoneColumns : List Console.Column :=
  [⟨"Zone", .left⟩, ⟨"Outgoing", .centre⟩, ⟨"Incoming", .centre⟩, ⟨"Cross-zone", .centre⟩]

def zoneRow (z : ZoneDraft) : List Text :=
  [z.name, flagCell z.outgoing, flagCell z.incoming, flagCell z.crossZone]

def showZones (place : Place) (zs : List ZoneDraft) : Shell m Unit := do
  match place.terminal.table zoneColumns (zs.map zoneRow) with
  | .ok lines => lines.forM (line place)
  | .error f => stop (.stopped f)

/-- The key of the next page, unless it is empty. -/
def nextKey? (p : PageResponse) : Option String :=
  match p.nextKey with
  | some (b :: bs) => some (Hex.encode (b :: bs))
  | _ => none

def showFooter (place : Place) (p : PageResponse) : Shell m Unit := do
  if let some k := nextKey? p then say place ("[dim]Next page key: " ++ k ++ "[/dim]" : String)
  if let some n := p.total then say place ("[dim]Total: " ++ toString n ++ "[/dim]" : String)

def pageValue (p : PageResponse) : Value :=
  .object [("next_key", match nextKey? p with | some k => .text k | none => .null),
    ("total", match p.total with | some n => .int n | none => .null)]

def answerValue : Answer → Value
  | .taxable b => .object [("taxable", .bool b)]
  | .zones zs p => .object [("zones", .list (zs.map ZoneDraft.toValue)), ("pagination", pageValue p)]
  | .addresses xs p => .object [("addresses", .ofTexts xs), ("pagination", pageValue p)]
  | .zone z => z.toValue

def showAnswer (place : Place) : Answer → Shell m Unit
  | .taxable true => say place "[yellow]taxable[/yellow]"
  | .taxable false => say place "[green]exempt[/green]"
  | .zones zs p => do
    if zs.isEmpty then say place "[dim]No zones found.[/dim]" else showZones place zs
    showFooter place p
  | .addresses xs p => do
    if xs.isEmpty then say place "[dim]No addresses found.[/dim]"
    xs.forM (say place)
    showFooter place p
  | .zone z => showZones place [z]

/-- The message that something was done. -/
def doneMessage (text : Text) : Text :=
  "[green]✓[/green] " ++ text

/-- Says that something was done. -/
def done (place : Place) (text : Text) : Shell m Unit :=
  say place (doneMessage text)

def strong (name : Text) : Text :=
  "[bold]" ++ name ++ "[/bold]"

def changed (k : MessageKind) (zone : Text) (addresses : List Text) : Text :=
  match k with
  | .addZone => "Zone " ++ strong zone ++ " saved"
  | .modifyZone => "Zone " ++ strong zone ++ " modified"
  | .removeZone => "Zone " ++ strong zone ++ " removed"
  | .addAddresses => "Added " ++ toString addresses.length ++ " address(es) to " ++ strong zone
  | .removeAddresses => "Removed " ++ toString addresses.length ++ " address(es) from " ++ strong zone

def zoneCount {α : Type} (zones : List α) : String :=
  toString zones.length ++ " zone(s)"

/-! ## The commands -/

/-- Ends the run unless there is something at the path of the database. -/
def requireDatabase (place : Place) (c : Config) : Shell m Unit := do
  if !(← isThere place c.dbPath) then
    say place ("[yellow]No database found at " ++ c.dbPath ++ "[/yellow]")
    stop .noDatabase

/-- The records of a database that has to be there. -/
def existing (place : Place) (c : Config) : Shell m Records := do
  requireDatabase place c
  orReport place (fun _ => false) false (← openDatabase place c.dbPath)

/-- Asks a query and shows the answer. What goes wrong in deciding a transfer is not told. -/
def ask (place : Place) (c : Config) (json : Bool) (q : Query) : Shell m Unit := do
  let r ← existing place c
  let told : Failure → Bool := match q with
    | .taxable _ _ => fun _ => false
    | _ => Failure.isOfRegistry
  let answer ← orReport place told json (← work place c.dbPath r (Registry.answer (some q)))
  if json then line place (Json.write .prettyAscii (answerValue answer)) else showAnswer place answer

/-- The page request of an excerpt. -/
def excerptRequest (e : Excerpt) : Shell m PageRequest :=
  match e.toRequest with
  | .ok p => return p
  | .error rule => stop (.misused (.broken rule))

/-- Sends a message. -/
def send (place : Place) (c : Config) (message : Message) : Shell m Unit := do
  orReport place Failure.isOfRegistry false (← workOn place c.dbPath (Registry.handle c.settings message))

/-- A genesis state that is sound. -/
def soundGenesis (place : Place) (c : Config) (json : Bool) (path : Text) : Shell m GenesisDraft := do
  let s ← orReport place Failure.isOfDocument json (← readFile path Loading.genesis)
  orReport place Failure.isOfDocument json ((s.validate c.addressPrefix).mapError .registry)
  return s

/-- Prints the registry as a genesis state, or writes it to a file whose name says how. -/
def exportTo (place : Place) (c : Config) (out : Option Text) (format : GenesisState.Format) : Shell m Unit := do
  let r ← existing place c
  let s ← orReport place Failure.isOfRegistry false (← work place c.dbPath r (Registry.exportState c.settings))
  match out with
  | none => line place (s.write format)
  | some p =>
    save p (Utf8.encode (s.write (.ofName (Path.fileName p))))
    done place ("Exported " ++ zoneCount s.zones ++ " to " ++ p)

def format? : Text → Option GenesisState.Format
  | .plain "json" => some .json
  | .plain "yaml" => some .yaml
  | _ => none

end Shell

namespace Command

open Shell

variable {m : Type → Type} [Monad m] [Files m]

/-- The file that a command reads. -/
def file? : Command → Option Text
  | .validateGenesis f | .importGenesis f | .migrate f _ => some f
  | _ => none

/-- The file that a command writes. -/
def out? : Command → Option Text
  | .exportGenesis out _ => out
  | _ => none

/-- What a command does; `file` is the path of the file that it reads, `out` of the one that it writes. -/
def perform (place : Place) (c : Config) (json : Bool) (file : Text) (out : Option Text) : Command → Shell m Unit
  | .taxable s r => ask place c json (.taxable s r)
  | .zones e => do ask place c json (.zones (some (← excerptRequest e)))
  | .addresses z e => do ask place c json (.addresses z (some (← excerptRequest e)))
  | .zone n => ask place c json (.zone n)
  | .change k authority name flags members => do
    send place c (k.message (authority.getD c.authority) name flags members)
    done place (changed k name members)
  | .validateGenesis _ => do
    let s ← soundGenesis place c json file
    if json then
      line place (Json.write .prettyAscii (.object [("valid", .bool true), ("zones", .int s.zones.length)]))
    else done place (Path.fileName file ++ " is valid (" ++ zoneCount s.zones ++ ")")
  | .importGenesis _ => do
    let s ← soundGenesis place c false file
    orReport place Failure.isOfDocument false (← workOn place c.dbPath (Registry.importState c.settings s))
    done place ("Imported " ++ zoneCount s.zones ++ " into " ++ c.dbPath)
  | .exportGenesis _ format => do
    match format? format with
    | some f => exportTo place c out f
    | none => stop (.misused (.broken .format))
  | .migrate _ name => do
    let members ← orReport place Failure.isOfList false (← readFile file fun _ => Loading.addresses)
    let n ← orReport place Failure.isOfList false (← workOn place c.dbPath (Registry.migrate c.settings members name))
    done place ("Migrated " ++ toString n ++ " address(es) into " ++ strong name)

end Command

/-! ## Runs -/

namespace Invocation

variable {m : Type → Type} [Monad m] [Files m]

/-- The configuration file: the one named on the command line, else the one named at the place. -/
def configFile (i : Invocation) (place : Place) : Option Text :=
  i.config.or (if place.config.isEmpty then none else some place.config)

/-- The paths that were given are looked up first. -/
def ifGiven (find : Text → Shell m Text) : Option Text → Shell m (Option Text)
  | some p => return some (← find p)
  | none => return none

def perform (i : Invocation) (place : Place) : Shell m Unit := do
  let config ← ifGiven (Shell.present place) (i.configFile place)
  let file ← ifGiven (Shell.present place) i.command.file?
  let database ← ifGiven (Shell.resolve place) i.database
  let out ← ifGiven (Shell.resolve place) i.command.out?
  let c ← Shell.configuration place config
  i.command.perform place (Shell.withDatabase database c) i.json (file.getD "") out

end Invocation

/-- What is left of a run. -/
structure Run where
  ending : Ending
  output : String
  /-- The log entries that were asked for. -/
  log : List Log.Entry
  deriving DecidableEq, Repr

namespace Request

variable {m : Type → Type} [Monad m] [Files m]

def versionText : String := "[bold]taxexempt[/bold] version 0.1.0"

def helpText : String :=
  "Commands: query taxable, query zones, query addresses, query zone, tx add-zone, tx modify-zone, " ++
    "tx remove-zone, tx add-address, tx remove-address, genesis validate, genesis import, genesis export, " ++
    "migrate-legacy"

def perform (place : Place) : Request → Shell m Unit
  | .version => Shell.say place versionText
  | .help => Shell.line place helpText
  | .run i => i.perform place

/-- Without the option for it only warnings are logged. -/
def logged (r : Request) (e : Log.Entry) : Bool :=
  match r with
  | .run i => i.verbose || e.level = .warning
  | _ => false

end Request

/-- Runs a command line. -/
def run {m : Type → Type} [Monad m] [Files m] (place : Place) (words : List Text) : m Run := do
  match Request.read words with
  | .error e => return ⟨.misused e, "", []⟩
  | .ok request =>
    let (result, t) ← (request.perform place : Shell m Unit).run.run {}
    let ending := match result with
      | .ok () => .success
      | .error e => e
    return ⟨ending, t.output, t.log.filter request.logged⟩

end ExemptZones
