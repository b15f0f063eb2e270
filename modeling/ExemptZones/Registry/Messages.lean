import ExemptZones.Message
import ExemptZones.Registry.Membership

/-
Messages applied to the registry. The sender must be the authority and the zone must have a name;
then the message takes effect as a whole or not at all.
-/

namespace ExemptZones.Registry

open ExemptZones.Action

def requireAuthority (cfg : Settings) (sender : Text) : Action Unit :=
  if sender = cfg.authority then pure () else blame (.unauthorized cfg.authority sender)

def requireName (zone : Text) : Action Unit :=
  if zone.isEmpty then blame .emptyZoneName else pure ()

/-- The effect of a message whose sender and zone name are in order. -/
def apply (cfg : Settings) : Message → Action Unit
  | .addZone c => do
    Store.transaction do
      addZone c.toZone
      c.addresses.forM (addAddress cfg c.zone)
    note (.messageAddedZone c.zone c.addresses.length)
  | .modifyZone c => do
    Store.transaction do
      modifyZone c.toZone
      c.addresses.forM (addAddress cfg c.zone)
    note (.messageModifiedZone c.zone)
  | .removeZone r => do
    removeZone r.zone
    note (.messageRemovedZone r.zone)
  | .addAddresses c => do
    Store.transaction (c.addresses.forM (addAddress cfg c.zone))
    note (.messageAddedAddresses c.addresses.length c.zone)
  | .removeAddresses c => do
    Store.transaction (c.addresses.forM (removeAddress cfg c.zone))
    note (.messageRemovedAddresses c.addresses.length c.zone)

def handle (cfg : Settings) (m : Message) : Action Unit := do
  requireAuthority cfg m.authority
  requireName m.zone
  apply cfg m

end ExemptZones.Registry
