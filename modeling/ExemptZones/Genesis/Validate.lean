import ExemptZones.Failure
import ExemptZones.Genesis.State

/-
When a genesis state is sound: it has as many groups as zones, each group names one of the zones,
and every address is one.
-/

namespace ExemptZones.GenesisDraft

def validateAddresses (hrp : String) : List Text → Except Cause Unit
  | [] => .ok ()
  | a :: rest =>
    match Address.validate a hrp with
    | .ok _ => validateAddresses hrp rest
    | .error fault => .error (.invalidAddress a fault)

def validateGroups (names : List Text) (hrp : String) : List GroupDraft → Except Cause Unit
  | [] => .ok ()
  | g :: rest => do
    if !names.contains g.zone then throw (.zoneNotListed g.zone)
    validateAddresses hrp g.addresses
    validateGroups names hrp rest

def validate (s : GenesisDraft) (hrp : String) : Except Cause Unit := do
  if s.zones.length ≠ s.groups.length then throw (.lengthsDiffer s.zones.length s.groups.length)
  validateGroups (s.zones.map (·.name)) hrp s.groups

end ExemptZones.GenesisDraft
