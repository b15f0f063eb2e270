import ExemptZones.Genesis.Validate
import ExemptZones.Registry.Membership

/-
The registry as a genesis state, and back. An import writes all or nothing. An export that does not
validate is a sign of a corrupt store.
-/

namespace ExemptZones.Registry

open ExemptZones.Action

def addGroup (cfg : Settings) (g : GroupDraft) : Action Unit :=
  g.addresses.forM (addAddress cfg g.zone)

/-- Adds every zone of the state, then every membership. -/
def importState (cfg : Settings) (s : GenesisDraft) : Action Unit := do
  Store.transaction do
    s.zones.forM addZone
    s.groups.forM (addGroup cfg)
  note (.imported s.zones.length s.addressCount)

/-- A name put into an ascending list, unless it is there. -/
def insertName (n : String) : List String → List String
  | [] => [n]
  | m :: ms => if n < m then n :: m :: ms else if n = m then m :: ms else m :: insertName n ms

/-- The memberships in zones that are registered; the others are only noted. -/
def registeredMembers (names : List String) : List Record → Action (List (String × String))
  | [] => pure []
  | e :: es => do
    let address ← decodeText e.1
    let zone ← decodeText e.2
    if names.contains zone then
      return (address, zone) :: (← registeredMembers names es)
    else
      note (.skippedMember address zone)
      registeredMembers names es

def groupOf (members : List (String × String)) (zone : String) : AddressGroup :=
  ⟨zone, (members.filter fun m => m.2 = zone).map (·.1)⟩

/-- The whole registry: zones in the order of their records, and one group for each name in order. -/
def exportState (cfg : Settings) : Action GenesisState := do
  let zs ← zones
  let names := zs.foldl (fun ns z => insertName z.name ns) []
  let members ← registeredMembers names (← memberView.scan none none false)
  let state : GenesisState := ⟨zs, names.map (groupOf members)⟩
  match GenesisDraft.validate state cfg.addressPrefix with
  | .ok () => return state
  | .error found => blame (.corruptStore found)

end ExemptZones.Registry
