import ExemptZones.Zone

/-
The genesis state: the whole registry as a document, every zone and the addresses of each.
-/

namespace ExemptZones

open Shape

/-- The addresses of one zone. -/
structure AddressGroup where
  zone : String
  addresses : List String := []
  deriving DecidableEq, Repr

structure GenesisState where
  zones : List Zone := []
  groups : List AddressGroup := []
  deriving DecidableEq, Repr

/-- The addresses of one zone, as they come from outside. -/
structure GroupDraft where
  zone : Text
  addresses : List Text := []
  deriving DecidableEq, Repr

/-- A genesis state as it comes from outside, where names and addresses may be texts that cannot be stored. -/
structure GenesisDraft where
  zones : List ZoneDraft := []
  groups : List GroupDraft := []
  deriving DecidableEq, Repr

def AddressGroup.draft (g : AddressGroup) : GroupDraft :=
  ⟨g.zone, g.addresses.map .plain⟩

def GenesisState.draft (s : GenesisState) : GenesisDraft :=
  ⟨s.zones.map Zone.draft, s.groups.map AddressGroup.draft⟩

instance : Coe AddressGroup GroupDraft := ⟨AddressGroup.draft⟩

instance : Coe GenesisState GenesisDraft := ⟨GenesisState.draft⟩

namespace AddressGroup

def toValue (g : AddressGroup) : Value :=
  .object [("zone", .text g.zone), ("addresses", .texts g.addresses)]

end AddressGroup

namespace GroupDraft

def title : String := "AddressesByZone"

def ofValue : Reader GroupDraft :=
  record ["zone", "addresses"] fun es =>
    ((fieldOf "zone" text es).both (fieldOr "addresses" (listOf text) [] es)).map fun (z, xs) => ⟨z, xs⟩

def toValue (g : GroupDraft) : Value :=
  .object [("zone", .ofText g.zone), ("addresses", .ofTexts g.addresses)]

theorem ofValue_toValue (g : AddressGroup) : ofValue g.toValue = .ok g := by
  have h := items_map (r := text) (f := Value.text) (g := Text.plain) (fun _ => rfl) 0 g.addresses
  simp [ofValue, AddressGroup.toValue, AddressGroup.draft, Value.object, Value.texts, record, fieldOf, fieldOr, field?,
    text, listOf, h, strangers, Except.map]

end GroupDraft

namespace GenesisState

def toValue (s : GenesisState) : Value :=
  .object [("zone_list", .list (s.zones.map Zone.toValue)),
    ("addresses_by_zone", .list (s.groups.map AddressGroup.toValue))]

end GenesisState

namespace GenesisDraft

def title : String := "GenesisState"

def ofValue : Reader GenesisDraft :=
  record ["zone_list", "addresses_by_zone"] fun es =>
    ((fieldOr "zone_list" (listOf ZoneDraft.ofValue) [] es).both
      (fieldOr "addresses_by_zone" (listOf GroupDraft.ofValue) [] es)).map fun (zs, gs) => ⟨zs, gs⟩

def toValue (s : GenesisDraft) : Value :=
  .object [("zone_list", .list (s.zones.map ZoneDraft.toValue)),
    ("addresses_by_zone", .list (s.groups.map GroupDraft.toValue))]

theorem ofValue_toValue (s : GenesisState) : ofValue s.toValue = .ok s := by
  have hz := items_map ZoneDraft.ofValue_toValue 0 s.zones
  have hg := items_map GroupDraft.ofValue_toValue 0 s.groups
  simp [ofValue, GenesisState.toValue, GenesisState.draft, Value.object, record, fieldOr, field?, listOf, hz, hg,
    strangers, Except.map]

def addressCount (s : GenesisDraft) : Nat :=
  s.groups.foldl (fun n g => n + g.addresses.length) 0

end GenesisDraft

end ExemptZones
