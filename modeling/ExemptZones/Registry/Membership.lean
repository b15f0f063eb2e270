import ExemptZones.Address.Basic
import ExemptZones.Decision
import ExemptZones.Party
import ExemptZones.Registry.Basic

/-
Membership: each address is in one zone at most. One side of a transfer is found its zone through
two look-ups, the address's membership and the zone's record; either may be missing.
-/

namespace ExemptZones.Registry

open ExemptZones.Action

/-- The name of the zone that a party is a member of. -/
def zoneNameOf : Party → Action (Option String)
  | .unspecified | .unencodable _ => pure none
  | .named address =>
    if address.isEmpty then pure none
    else do
      match ← memberView.get (Utf8.encode address) with
      | some b => return some (← decodeText b)
      | none => return none

/-- Makes an address a member of a zone; nothing happens if it is one already. -/
def addAddress (cfg : Settings) (zone address : Text) : Action Unit := do
  let zone ← encodable zone
  requireZone zone
  if let .error fault := Address.validate address cfg.addressPrefix then blame (.invalidAddress address fault)
  let address ← encodable address
  match ← zoneNameOf (.named address) with
  | some current => if current ≠ zone then blame (.alreadyAssociated address zone current)
  | none =>
    memberView.set (Utf8.encode address) (Utf8.encode zone)
    note (.addedAddress address zone)

/-- Ends the membership of an address in this very zone. -/
def removeAddress (cfg : Settings) (zone address : Text) : Action Unit := do
  let zone ← encodable zone
  requireZone zone
  if let .error fault := Address.validate address cfg.addressPrefix then blame (.notMember zone address (some fault))
  let address ← encodable address
  if (← zoneNameOf (.named address)) ≠ some zone then blame (.notMember zone address none)
  memberView.delete (Utf8.encode address)
  note (.removedAddress address zone)

/-- Every address and the name of its zone, in the order of the addresses. -/
def memberships : Action (List (String × String)) := do
  (← memberView.scan none none false).mapM fun e => return (← decodeText e.1, ← decodeText e.2)

/-! ## The zone of a party -/

/-- Zones by their names, as they were read before. -/
abbrev Cache := List (String × Zone)

/-- The zone of a party, taken from the cache if it holds one of that name, and put there otherwise. -/
def resolve (party : Party) (cache : Cache) : Action (Option Zone × Cache) := do
  let some name ← zoneNameOf party | return (none, cache)
  match cache.lookup name with
  | some z => return (some z, cache)
  | none =>
    let some b ← zoneView.get (Utf8.encode name) | return (none, cache)
    let z ← decodeZone b
    return (some z, cache ++ [(name, z)])

/-- Whether a transfer is exempt from the levy. -/
def isExempt (sender recipient : Party) : Action Bool := do
  let (s, cache) ← resolve sender []
  let (r, _) ← resolve recipient cache
  return Decision.exempt s r

def isTaxable (sender recipient : Party) : Action Bool := do
  return !(← isExempt sender recipient)

end ExemptZones.Registry
