import ExemptZones.Value.Shown

/-
Reports: what is shown of a failure. A report has a kind, a message, a code, perhaps a suggestion, and
the particulars of its kind, which its context holds too. Whatever is left open is filled in by the
kind.
-/

namespace ExemptZones

/-- The kinds of report. Each but the first refines another. -/
inductive ReportKind where
  | general
  | invalidArgument
  | emptyZoneName
  | invalidAddress
  | invalidPagination
  | emptyRequest
  | notFound
  | zoneNotFound
  | addressNotFound
  | alreadyAssociated
  | genesis
  | zoneLengthInvalid
  | zoneNotExist
  | unauthorized
  | storage
  | storageConnection
  | storageWrite
  | storageRead
  | storageIntegrity
  deriving DecidableEq, Repr

namespace ReportKind

def all : List ReportKind :=
  [.general, .invalidArgument, .emptyZoneName, .invalidAddress, .invalidPagination, .emptyRequest, .notFound,
    .zoneNotFound, .addressNotFound, .alreadyAssociated, .genesis, .zoneLengthInvalid, .zoneNotExist, .unauthorized,
    .storage, .storageConnection, .storageWrite, .storageRead, .storageIntegrity]

/-- The name that a report is announced by. -/
def label : ReportKind → String
  | .general => "TaxExemptError"
  | .invalidArgument => "InvalidArgumentError"
  | .emptyZoneName => "EmptyZoneNameError"
  | .invalidAddress => "InvalidAddressError"
  | .invalidPagination => "InvalidPaginationError"
  | .emptyRequest => "EmptyRequestError"
  | .notFound => "NotFoundError"
  | .zoneNotFound => "ZoneNotFoundError"
  | .addressNotFound => "AddressNotFoundError"
  | .alreadyAssociated => "AlreadyAssociatedError"
  | .genesis => "GenesisError"
  | .zoneLengthInvalid => "ZoneLengthInvalidError"
  | .zoneNotExist => "ZoneNotExistError"
  | .unauthorized => "UnauthorizedError"
  | .storage => "StorageError"
  | .storageConnection => "StorageConnectionError"
  | .storageWrite => "StorageWriteError"
  | .storageRead => "StorageReadError"
  | .storageIntegrity => "StorageIntegrityError"

/-- The kind that a kind refines. -/
def refines? : ReportKind → Option ReportKind
  | .general => none
  | .emptyZoneName | .invalidAddress | .invalidPagination | .emptyRequest => some .invalidArgument
  | .zoneNotFound | .addressNotFound => some .notFound
  | .zoneLengthInvalid | .zoneNotExist => some .genesis
  | .storageConnection | .storageWrite | .storageRead | .storageIntegrity => some .storage
  | _ => some .general

/-- A kind and the kinds that it refines, the general one last. -/
def lineage (k : ReportKind) : List ReportKind :=
  match k.refines? with
  | none => [k]
  | some .general => [k, .general]
  | some l => [k, l, .general]

/-- The particulars of a kind, those of the refined kind first. -/
def particulars : ReportKind → List String
  | .general | .genesis => []
  | .invalidArgument | .emptyZoneName | .invalidPagination | .emptyRequest => ["argument"]
  | .invalidAddress => ["argument", "address", "reason"]
  | .notFound | .zoneNotFound | .zoneNotExist => ["zone"]
  | .addressNotFound => ["zone", "address"]
  | .alreadyAssociated => ["address", "zone", "current_zone"]
  | .zoneLengthInvalid => ["zone_count", "group_count"]
  | .unauthorized => ["expected", "actual"]
  | .storage | .storageIntegrity => ["operation"]
  | .storageConnection => ["operation", "db_path"]
  | .storageWrite | .storageRead => ["operation", "underlying_error"]

/-- What a particular is when it is not given. -/
def unstated (k : ReportKind) : Value :=
  if k = .zoneLengthInvalid then .int 0 else .text ""

/-- The argument that a kind blames when none is named. -/
def blamed : ReportKind → String
  | .emptyZoneName => "zone"
  | .invalidAddress => "address"
  | .invalidPagination => "pagination"
  | .emptyRequest => "request"
  | _ => ""

def defaultCode : ReportKind → Int
  | .general | .genesis | .storage => 0
  | .invalidArgument => 1001
  | .emptyZoneName => 1002
  | .invalidAddress => 1003
  | .invalidPagination => 1004
  | .emptyRequest => 1005
  | .notFound => 2000
  | .zoneNotFound => 2001
  | .addressNotFound => 2002
  | .alreadyAssociated => 2003
  | .zoneLengthInvalid => 3001
  | .zoneNotExist => 3002
  | .unauthorized => 4001
  | .storageConnection => 5001
  | .storageWrite => 5002
  | .storageRead => 5003
  | .storageIntegrity => 5004

/-- The message of a kind; `p` gives the particulars. -/
def defaultMessage (p : String → Text) : ReportKind → Text
  | .general | .notFound | .storage => ""
  | .invalidArgument => "invalid argument: " ++ p "argument"
  | .emptyZoneName => "zone name cannot be empty"
  | .invalidAddress => "invalid address " ++ Text.quoted (p "address") ++ ": " ++ p "reason"
  | .invalidPagination => "invalid pagination request"
  | .emptyRequest => "empty request"
  | .zoneNotFound => "no such zone in exemption list: " ++ p "zone"
  | .addressNotFound => "no such address in exemption list: " ++ p "address" ++ " (zone " ++ p "zone" ++ ")"
  | .alreadyAssociated =>
    "address " ++ p "address" ++ " is already associated with a different zone: " ++ p "current_zone"
  | .genesis => "invalid genesis state"
  | .zoneLengthInvalid =>
    "length of zone list and addresses by zone must be equal (" ++ p "zone_count" ++ " != " ++ p "group_count" ++ ")"
  | .zoneNotExist => "zone not exist: " ++ p "zone"
  | .unauthorized => "invalid authority; expected " ++ p "expected" ++ ", got " ++ p "actual"
  | .storageConnection => "Failed to connect to database: " ++ p "db_path"
  | .storageWrite => "Database write failed: " ++ p "underlying_error"
  | .storageRead => "Database read failed: " ++ p "underlying_error"
  | .storageIntegrity => "Database integrity check failed"

def defaultSuggestion (p : String → Text) : ReportKind → Option Text
  | .alreadyAssociated =>
    some ("Remove the address from " ++ p "current_zone" ++ " before adding it to " ++ p "zone")
  | .storageConnection => some (.plain "Check that the database path is valid and writable")
  | .storageIntegrity => some (.plain "The database may be corrupted. Try using a backup.")
  | _ => none

end ReportKind

/-- Named values in order. -/
abbrev Named := List (String × Value)

namespace Named

/-- Puts a value in the place of one of its name, else at the end. -/
def put (name : String) (v : Value) : Named → Named
  | [] => [(name, v)]
  | (n, w) :: r => if n = name then (n, v) :: r else (n, w) :: put name v r

def get? (name : String) : Named → Option Value
  | [] => none
  | (n, v) :: r => if n = name then some v else get? name r

end Named

structure Report where
  kind : ReportKind
  message : Text
  code : Int
  suggestion : Option Text
  context : Named
  details : Named

/-- What is said about a failure when it is reported; the kind fills in the rest. -/
structure Particulars where
  message : Text := ""
  code : Int := 0
  suggestion : Option Text := none
  context : Named := []
  details : Named := []

namespace Report

/-- An empty suggestion is none. -/
def suggested (given : Option Text) (default : Option Text) : Option Text :=
  match given with
  | some s => if s.isEmpty then default.or (some s) else some s
  | none => default

/-- The details of a kind in their order. An argument left empty is the one that the kind blames. -/
def complete (k : ReportKind) (given : Named) : Named :=
  k.particulars.map fun name =>
    let v := (given.get? name).getD k.unstated
    (name, if name = "argument" && v.alone.isEmpty then .text k.blamed else v)

def make (k : ReportKind) (given : Particulars) : Report :=
  let details := complete k given.details
  let p name := ((details.get? name).map Value.alone).getD ""
  { kind := k
    message := if given.message.isEmpty then k.defaultMessage p else given.message
    code := if given.code = 0 then k.defaultCode else given.code
    suggestion := suggested given.suggestion (k.defaultSuggestion p)
    context := details.foldl (fun c (n, v) => c.put n v) given.context
    details := details }

/-- Takes in one named value; `none` if the kind has no such value. -/
def take? (k : ReportKind) (given : Particulars) (name : String) (v : Value) : Option Particulars :=
  match name, v with
  | "message", v => some { given with message := v.alone }
  | "code", .int i => some { given with code := i }
  | "suggestion", .null => some { given with suggestion := none }
  | "suggestion", v => some { given with suggestion := some v.alone }
  | "context", .map es => some { given with context := es.map fun (k, v) => (k.plain, v) }
  | _, _ => if k.particulars.contains name then some { given with details := given.details.put name v } else none

/-- A report from named values, unless one has a name that the kind does not know. -/
def ofNamed? (k : ReportKind) (fields : Named) : Option Report :=
  (fields.foldlM (fun given (n, v) => take? k given n v) {}).map (make k)

/-- The report on one line, and the suggestion on another. -/
def line (r : Report) : Text :=
  let head : Text := "[E" ++ toString r.code ++ "] " ++ r.message
  match r.suggestion with
  | some s => if s.isEmpty then head else head ++ "\nSuggestion: " ++ s
  | none => head

def assignment (name : String) (v : Value) : String :=
  name ++ "=" ++ v.inside

/-- The report with everything in it. A general report leaves its suggestion out. -/
def full (r : Report) : String :=
  let message := assignment "message" (.ofText r.message)
  let code := assignment "code" (.int r.code)
  let suggestion := assignment "suggestion" (.ofText? r.suggestion)
  let context := assignment "context" (.object r.context)
  let parts :=
    if r.kind = .general then [message, code, context]
    else [message, code, suggestion, context] ++ r.details.map fun (n, v) => assignment n v
  r.kind.label ++ "(" ++ ", ".intercalate parts ++ ")"

def toNamed (r : Report) : Named :=
  [("error_type", .text r.kind.label), ("message", .ofText r.message), ("code", .int r.code),
    ("suggestion", .ofText? r.suggestion), ("context", .object r.context)]

end Report

end ExemptZones
