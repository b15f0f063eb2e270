import ExemptZones.Text.Basic

/-
The log: what the registry says about its work. An entry is the event itself; its level and its
wording are functions of it.
-/

namespace ExemptZones.Log

inductive Level where
  | debug
  | info
  | warning
  deriving DecidableEq, Repr

/-- The part of the registry that an entry comes from. -/
inductive Channel where
  | store
  | registry
  | messages
  | genesis
  | migration
  deriving DecidableEq, Repr

inductive Entry where
  | rolledBack
  | storedZone (zone : String)
  | modifiedZone (zone : String)
  | removedZone (zone : String) (members : Nat)
  | addedAddress (address zone : String)
  | removedAddress (address zone : String)
  | messageAddedZone (zone : Text) (addresses : Nat)
  | messageModifiedZone (zone : Text)
  | messageRemovedZone (zone : Text)
  | messageAddedAddresses (count : Nat) (zone : Text)
  | messageRemovedAddresses (count : Nat) (zone : Text)
  | imported (zones addresses : Nat)
  | skippedMember (address zone : String)
  | migrated (count : Nat) (zone : Text)
  deriving DecidableEq, Repr

namespace Entry

def level : Entry → Level
  | .rolledBack | .storedZone _ | .modifiedZone _ | .removedZone _ _ | .addedAddress _ _ | .removedAddress _ _ => .debug
  | .skippedMember _ _ => .warning
  | _ => .info

def channel : Entry → Channel
  | .rolledBack => .store
  | .storedZone _ | .modifiedZone _ | .removedZone _ _ | .addedAddress _ _ | .removedAddress _ _ => .registry
  | .imported _ _ | .skippedMember _ _ => .genesis
  | .migrated _ _ => .migration
  | _ => .messages

def message : Entry → Text
  | .rolledBack => "Rolled back transaction"
  | .storedZone zone => "Stored zone " ++ zone
  | .modifiedZone zone => "Modified zone " ++ zone
  | .removedZone zone members => "Removed zone " ++ zone ++ " and " ++ toString members ++ " member address(es)"
  | .addedAddress address zone => "Added " ++ address ++ " to zone " ++ zone
  | .removedAddress address zone => "Removed " ++ address ++ " from zone " ++ zone
  | .messageAddedZone zone addresses => "Added zone " ++ zone ++ " with " ++ toString addresses ++ " address(es)"
  | .messageModifiedZone zone => "Modified zone " ++ zone
  | .messageRemovedZone zone => "Removed zone " ++ zone
  | .messageAddedAddresses count zone => "Added " ++ toString count ++ " address(es) to zone " ++ zone
  | .messageRemovedAddresses count zone => "Removed " ++ toString count ++ " address(es) from zone " ++ zone
  | .imported zones addresses =>
    "Imported genesis: " ++ toString zones ++ " zone(s), " ++ toString addresses ++ " address(es)"
  | .skippedMember address zone => "Skipping " ++ address ++ ": zone " ++ zone ++ " is not registered"
  | .migrated count zone => "Migrated " ++ toString count ++ " legacy exemption(s) into zone " ++ zone

end Entry

end ExemptZones.Log
