import ExemptZones.Query
import ExemptZones.Registry.Listing

/-
Queries answered by the registry. None of them writes.
-/

namespace ExemptZones.Registry

open ExemptZones.Action

def answer : Option Query → Action Answer
  | none => blame .emptyRequest
  | some (.taxable s r) => return .taxable (← isTaxable s r)
  | some (.zones p) => do
    let (zs, page) ← listZones p
    return .zones (zs.map Zone.draft) page
  | some (.addresses z p) => do
    let (xs, page) ← listAddresses z p
    return .addresses (xs.map .plain) page
  | some (.zone n) => return .zone (← getZone n)

end ExemptZones.Registry
