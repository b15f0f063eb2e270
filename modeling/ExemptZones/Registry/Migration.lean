import ExemptZones.Registry.Membership

/-
Migration of a flat list of exempt addresses. A transfer was exempt when both sides were on the list,
which is what one zone without flags says.
-/

namespace ExemptZones.Registry

open ExemptZones.Action

/-- The zone that takes the addresses when none is named. -/
def legacyZoneName : String := "Binance"

/-- Moves addresses into a zone, whose flags are all taken down. Answers how many there were. -/
def migrate (cfg : Settings) (addresses : List Text) (zone : Text) : Action Nat := do
  Store.transaction do
    addZone ⟨{}, zone⟩
    addresses.forM (addAddress cfg zone)
  note (.migrated addresses.length zone)
  return addresses.length

end ExemptZones.Registry
