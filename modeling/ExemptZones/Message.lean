import ExemptZones.Zone

/-
Messages: the changes that the authority may ask for.
-/

namespace ExemptZones

open Shape

/-- The flags of a zone, and addresses that join it. -/
structure ZoneChange extends Flags where
  authority : Text
  zone : Text
  addresses : List Text := []
  deriving DecidableEq, Repr

structure ZoneRemoval where
  authority : Text
  zone : Text
  deriving DecidableEq, Repr

/-- Addresses that join a zone or leave it. -/
structure MemberChange where
  authority : Text
  zone : Text
  addresses : List Text := []
  deriving DecidableEq, Repr

inductive Message where
  | addZone (c : ZoneChange)
  | modifyZone (c : ZoneChange)
  | removeZone (r : ZoneRemoval)
  | addAddresses (c : MemberChange)
  | removeAddresses (c : MemberChange)
  deriving DecidableEq, Repr

inductive MessageKind where
  | addZone
  | modifyZone
  | removeZone
  | addAddresses
  | removeAddresses
  deriving DecidableEq, Repr

namespace ZoneChange

def toZone (c : ZoneChange) : ZoneDraft :=
  ⟨c.toFlags, c.zone⟩

def ofValue : Reader ZoneChange :=
  record (["authority", "zone"] ++ Flags.fieldNames ++ ["addresses"]) fun es =>
    ((((fieldOf "authority" text es).both (fieldOf "zone" text es)).both (Flags.ofEntries es)).both
      (fieldOr "addresses" (listOf text) [] es)).map fun (((a, z), f), xs) => ⟨f, a, z, xs⟩

def toValue (c : ZoneChange) : Value :=
  .object ([("authority", .ofText c.authority), ("zone", .ofText c.zone)] ++ c.toFlags.fields ++
    [("addresses", .ofTexts c.addresses)])

end ZoneChange

namespace ZoneRemoval

def ofValue : Reader ZoneRemoval :=
  record ["authority", "zone"] fun es =>
    ((fieldOf "authority" text es).both (fieldOf "zone" text es)).map fun (a, z) => ⟨a, z⟩

def toValue (r : ZoneRemoval) : Value :=
  .object [("authority", .ofText r.authority), ("zone", .ofText r.zone)]

end ZoneRemoval

namespace MemberChange

def ofValue : Reader MemberChange :=
  record ["authority", "zone", "addresses"] fun es =>
    (((fieldOf "authority" text es).both (fieldOf "zone" text es)).both
      (fieldOr "addresses" (listOf text) [] es)).map fun ((a, z), xs) => ⟨a, z, xs⟩

def toValue (c : MemberChange) : Value :=
  .object [("authority", .ofText c.authority), ("zone", .ofText c.zone), ("addresses", .ofTexts c.addresses)]

end MemberChange

namespace MessageKind

def title : MessageKind → String
  | .addZone => "MsgAddZone"
  | .modifyZone => "MsgModifyZone"
  | .removeZone => "MsgRemoveZone"
  | .addAddresses => "MsgAddAddress"
  | .removeAddresses => "MsgRemoveAddress"

def all : List MessageKind :=
  [.addZone, .modifyZone, .removeZone, .addAddresses, .removeAddresses]

end MessageKind

namespace Message

def ofValue : MessageKind → Reader Message
  | .addZone => fun v => (ZoneChange.ofValue v).map .addZone
  | .modifyZone => fun v => (ZoneChange.ofValue v).map .modifyZone
  | .removeZone => fun v => (ZoneRemoval.ofValue v).map .removeZone
  | .addAddresses => fun v => (MemberChange.ofValue v).map .addAddresses
  | .removeAddresses => fun v => (MemberChange.ofValue v).map .removeAddresses

def toValue : Message → Value
  | .addZone c | .modifyZone c => c.toValue
  | .removeZone r => r.toValue
  | .addAddresses c | .removeAddresses c => c.toValue

/-- The zone record that a message carries. -/
def carriedZone? : Message → Option ZoneDraft
  | .addZone c | .modifyZone c => some c.toZone
  | _ => none

def authority : Message → Text
  | .addZone c | .modifyZone c => c.authority
  | .removeZone r => r.authority
  | .addAddresses c | .removeAddresses c => c.authority

def zone : Message → Text
  | .addZone c | .modifyZone c => c.zone
  | .removeZone r => r.zone
  | .addAddresses c | .removeAddresses c => c.zone

end Message

/-- The empty answer to a message. -/
def acknowledgement : Reader Unit :=
  record [] fun _ => .ok ()

end ExemptZones
