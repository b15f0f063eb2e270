import ExemptZones.Shape.Record

/-
Pages of a listing: what is asked for, and what comes back beside the records themselves.
-/

namespace ExemptZones

structure PageRequest where
  /-- The key at which a previous page stopped. -/
  key : Option Bytes := none
  /-- How many matching records to skip. -/
  offset : Nat := 0
  /-- How many records a page holds; zero is no limit. -/
  limit : Nat := 0
  countTotal : Bool := false
  /-- In descending order of keys. -/
  reverse : Bool := false
  deriving DecidableEq, Repr, Inhabited

structure PageResponse where
  /-- The key of the first matching record after the page. -/
  nextKey : Option Bytes := none
  /-- How many records match in all, if that was asked for. -/
  total : Option Int := none
  deriving DecidableEq, Repr, Inhabited

open Shape

/-- A key or null. -/
def keyValue : Option Bytes → Value
  | some b => .bytes b
  | none => .null

namespace PageRequest

def title : String := "PageRequest"

def ofValue : Reader PageRequest :=
  record ["key", "offset", "limit", "count_total", "reverse"] fun es =>
    (((((fieldOr "key" (orNull bytes) none es).both (fieldOr "offset" natural 0 es)).both
      (fieldOr "limit" natural 0 es)).both (fieldOr "count_total" flag false es)).both
      (fieldOr "reverse" flag false es)).map fun ((((k, o), l), c), r) => ⟨k, o, l, c, r⟩

def toValue (p : PageRequest) : Value :=
  .object [("key", keyValue p.key), ("offset", .int p.offset), ("limit", .int p.limit),
    ("count_total", .bool p.countTotal), ("reverse", .bool p.reverse)]

end PageRequest

namespace PageResponse

def title : String := "PageResponse"

def ofValue : Reader PageResponse :=
  record ["next_key", "total"] fun es =>
    ((fieldOr "next_key" (orNull bytes) none es).both (fieldOr "total" (orNull integer) none es)).map
      fun (k, t) => ⟨k, t⟩

def toValue (p : PageResponse) : Value :=
  .object [("next_key", keyValue p.nextKey),
    ("total", match p.total with | some n => .int n | none => .null)]

end PageResponse

end ExemptZones
