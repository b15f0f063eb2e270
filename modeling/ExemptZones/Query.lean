import ExemptZones.Page
import ExemptZones.Party
import ExemptZones.Zone

/-
Queries: what can be asked of the registry, and what is answered.
-/

namespace ExemptZones

open Shape

inductive Query where
  | taxable (sender recipient : Party)
  | zones (page : Option PageRequest)
  | addresses (zone : Text) (page : Option PageRequest)
  | zone (name : Text)
  deriving DecidableEq, Repr

inductive Answer where
  | taxable (b : Bool)
  | zones (zones : List ZoneDraft) (page : PageResponse)
  | addresses (addresses : List Text) (page : PageResponse)
  | zone (z : ZoneDraft)
  deriving DecidableEq, Repr

inductive QueryKind where
  | taxable
  | zones
  | addresses
  | zone
  deriving DecidableEq, Repr

namespace QueryKind

def all : List QueryKind :=
  [.taxable, .zones, .addresses, .zone]

def requestTitle : QueryKind → String
  | .taxable => "QueryTaxableRequest"
  | .zones => "QueryZonesRequest"
  | .addresses => "QueryAddressesRequest"
  | .zone => "QueryZoneRequest"

def responseTitle : QueryKind → String
  | .taxable => "QueryTaxableResponse"
  | .zones => "QueryZonesResponse"
  | .addresses => "QueryAddressesResponse"
  | .zone => "QueryZoneResponse"

end QueryKind

/-- A page request or null. -/
def pageValue : Option PageRequest → Value
  | some p => p.toValue
  | none => .null

namespace Query

def ofValue : QueryKind → Reader Query
  | .taxable => record ["from_address", "to_address"] fun es =>
    ((fieldOr "from_address" Party.ofValue .unspecified es).both (fieldOr "to_address" Party.ofValue .unspecified es)).map
      fun (s, r) => .taxable s r
  | .zones => record ["pagination"] fun es =>
    (fieldOr "pagination" (orNull PageRequest.ofValue) none es).map .zones
  | .addresses => record ["zone_name", "pagination"] fun es =>
    ((fieldOr "zone_name" text (.plain "") es).both (fieldOr "pagination" (orNull PageRequest.ofValue) none es)).map
      fun (z, p) => .addresses z p
  | .zone => record ["name"] fun es => (fieldOf "name" text es).map .zone

def toValue : Query → Value
  | .taxable s r => .object [("from_address", s.toValue), ("to_address", r.toValue)]
  | .zones p => .object [("pagination", pageValue p)]
  | .addresses z p => .object [("zone_name", .ofText z), ("pagination", pageValue p)]
  | .zone n => .object [("name", .ofText n)]

end Query

namespace Answer

def ofValue : QueryKind → Reader Answer
  | .taxable => record ["taxable"] fun es => (fieldOf "taxable" flag es).map .taxable
  | .zones => record ["zones", "pagination"] fun es =>
    ((fieldOr "zones" (listOf ZoneDraft.ofValue) [] es).both (fieldOr "pagination" PageResponse.ofValue {} es)).map
      fun (zs, p) => .zones zs p
  | .addresses => record ["addresses", "pagination"] fun es =>
    ((fieldOr "addresses" (listOf text) [] es).both (fieldOr "pagination" PageResponse.ofValue {} es)).map
      fun (xs, p) => .addresses xs p
  | .zone => record ["zone"] fun es => (fieldOf "zone" ZoneDraft.ofValue es).map .zone

def toValue : Answer → Value
  | .taxable b => .object [("taxable", .bool b)]
  | .zones zs p => .object [("zones", .list (zs.map ZoneDraft.toValue)), ("pagination", p.toValue)]
  | .addresses xs p => .object [("addresses", .ofTexts xs), ("pagination", p.toValue)]
  | .zone z => .object [("zone", z.toValue)]

end Answer

end ExemptZones
