import ExemptZones.Address.Basic
import ExemptZones.Shape.Basic
import ExemptZones.Report

/-
What can go wrong. A `Cause` is a failure that the registry itself reports; each has a report of its
own. The other failures come from what lies around it: documents that do not read, files that are
not there, a store whose database is gone.
-/

namespace ExemptZones

inductive Cause where
  | emptyZoneName
  | invalidAddress (address : Text) (fault : Address.Fault)
  | keyAndOffset
  | emptyRequest
  | zoneNotFound (zone : String)
  /-- The address is not a member of the zone; if it is no address, for what fault. -/
  | notMember (zone : String) (address : Text) (fault : Option Address.Fault)
  | alreadyAssociated (address zone current : String)
  | lengthsDiffer (zones groups : Nat)
  | zoneNotListed (zone : Text)
  | unauthorized (expected actual : Text)
  | cannotOpen (path : Text) (detail : String)
  | writeFailed (operation detail : String)
  | readFailed (operation detail : String)
  /-- What was exported from the store does not validate. -/
  | corruptStore (found : Cause)
  deriving DecidableEq, Repr

namespace Cause

def kind : Cause → ReportKind
  | .emptyZoneName => .emptyZoneName
  | .invalidAddress _ _ => .invalidAddress
  | .keyAndOffset => .invalidPagination
  | .emptyRequest => .emptyRequest
  | .zoneNotFound _ => .zoneNotFound
  | .notMember _ _ _ => .addressNotFound
  | .alreadyAssociated _ _ _ => .alreadyAssociated
  | .lengthsDiffer _ _ => .zoneLengthInvalid
  | .zoneNotListed _ => .zoneNotExist
  | .unauthorized _ _ => .unauthorized
  | .cannotOpen _ _ => .storageConnection
  | .writeFailed _ _ => .storageWrite
  | .readFailed _ _ => .storageRead
  | .corruptStore _ => .storageIntegrity

/-- The kind of the failure that led to this one. -/
def origin? : Cause → Option ReportKind
  | .notMember _ _ (some _) => some .invalidAddress
  | .corruptStore found => some found.kind
  | _ => none

def texts (xs : List (String × Text)) : Named :=
  xs.map fun (n, t) => (n, .ofText t)

def report : Cause → Report
  | .emptyZoneName => .make .emptyZoneName {}
  | .invalidAddress address fault =>
    .make .invalidAddress { details := texts [("address", address), ("reason", fault.reason)] }
  | .keyAndOffset =>
    .make .invalidPagination { message := "invalid request, either offset or key is expected, got both" }
  | .emptyRequest => .make .emptyRequest {}
  | .zoneNotFound zone => .make .zoneNotFound { details := texts [("zone", zone)] }
  | .notMember zone address none => .make .addressNotFound { details := texts [("zone", zone), ("address", address)] }
  | .notMember zone address (some fault) =>
    .make .addressNotFound
      { message := "no such address in exemption list: " ++ fault.reason
        details := texts [("zone", zone), ("address", address)] }
  | .alreadyAssociated address zone current =>
    .make .alreadyAssociated { details := texts [("address", address), ("zone", zone), ("current_zone", current)] }
  | .lengthsDiffer zones groups =>
    .make .zoneLengthInvalid { details := [("zone_count", .int zones), ("group_count", .int groups)] }
  | .zoneNotListed zone => .make .zoneNotExist { details := texts [("zone", zone)] }
  | .unauthorized expected actual =>
    .make .unauthorized { details := texts [("expected", expected), ("actual", actual)] }
  | .cannotOpen path detail =>
    .make .storageConnection
      { message := "Failed to connect to database: " ++ detail
        details := texts [("operation", "connect"), ("db_path", path)] }
  | .writeFailed operation detail =>
    .make .storageWrite { details := texts [("operation", operation), ("underlying_error", detail)] }
  | .readFailed operation detail =>
    .make .storageRead { details := texts [("operation", operation), ("underlying_error", detail)] }
  | .corruptStore found =>
    .make .storageIntegrity
      { message := "error validate genesis: " ++ found.report.message
        details := texts [("operation", "export_genesis")] }

def message (c : Cause) : Text :=
  c.report.message

end Cause

/-- The kinds of scalar that a document may claim for a text that is none. -/
inductive ScalarKind where
  | flag
  | integer
  | float
  | date
  /-- The text is a date that no calendar has. -/
  | day
  deriving DecidableEq, Repr

inductive Failure where
  | registry (c : Cause)
  /-- A value does not have the shape of what it should be. -/
  | misshapen (title : String) (faults : List Shape.Fault)
  | notUtf8
  | notJson
  | notYaml (detail : String)
  | badScalar (k : ScalarKind)
  | missingFile (path : Text)
  | isDirectory (path : Text)
  /-- A path has a zero byte in it, and no file has such a name. -/
  | zeroByte
  /-- A text that is to be stored or printed has no encoded form. -/
  | unencodable
  /-- The database is held by another connection and takes nothing in. -/
  | locked
  /-- The database has gone away under the store. -/
  | disconnected
  /-- The store was closed. -/
  | closed
  /-- The surrounding work was given up on purpose. -/
  | abandoned
  /-- A closing mark in a message closes nothing. -/
  | strayMark
  deriving DecidableEq, Repr

end ExemptZones
