import ExemptZones.Store.View
import ExemptZones.Zone

/-
The registry of zones. A zone's record stands under its name in one view of the store, and the
name of a member's zone under the member's address in another.
-/

namespace ExemptZones.Registry

open ExemptZones.Action

/-- What a registry is set up with. -/
structure Settings where
  /-- Who may send messages. -/
  authority : Text := ""
  /-- The readable part of every address. -/
  addressPrefix : String := "terra"
  deriving DecidableEq, Repr

def zoneView : View := ⟨[1]⟩

def memberView : View := ⟨[2]⟩

def decodeZone (b : Bytes) : Action Zone :=
  ofChecked Zone.title (Zone.decode b)

def decodeText (b : Bytes) : Action String :=
  match Utf8.decode? b with
  | some s => pure s
  | none => fail .notUtf8

/-- A text that can be stored. -/
def encodable : Text → Action String
  | .plain s => pure s
  | .broken _ => fail .unencodable

/-- No zone has the empty name. -/
def hasZone (name : Text) : Action Bool := do
  let name ← encodable name
  if name.isEmpty then pure false else zoneView.has (Utf8.encode name)

def requireZone (name : String) : Action Unit := do
  if !(← hasZone name) then blame (.zoneNotFound name)

/-- A zone that can be stored. -/
def storable (z : ZoneDraft) : Action Zone := do
  return ⟨z.toFlags, ← encodable z.name⟩

/-- Writes a zone's record, whether or not there is one already. -/
def addZone (z : ZoneDraft) : Action Unit := do
  if z.name.isEmpty then blame .emptyZoneName
  let z ← storable z
  zoneView.set (Utf8.encode z.name) z.encode
  note (.storedZone z.name)

/-- Replaces the record of a zone that is there. -/
def modifyZone (z : ZoneDraft) : Action Unit := do
  if z.name.isEmpty then blame .emptyZoneName
  let z ← storable z
  requireZone z.name
  zoneView.set (Utf8.encode z.name) z.encode
  note (.modifiedZone z.name)

/-- The addresses among membership records that belong to the zone with the encoded name. -/
def membersOf (name : Bytes) (es : List Record) : List Bytes :=
  (es.filter fun e => e.2 = name).map (·.1)

/-- Removes a zone and every membership in it. -/
def removeZone (name : Text) : Action Unit := do
  let name ← encodable name
  requireZone name
  let gone ← Store.transaction do
    zoneView.delete (Utf8.encode name)
    let members := membersOf (Utf8.encode name) (← memberView.scan none none false)
    members.forM memberView.delete
    return members.length
  note (.removedZone name gone)

def getZone (name : Text) : Action Zone := do
  let name ← encodable name
  match ← zoneView.get (Utf8.encode name) with
  | some b => decodeZone b
  | none => blame (.zoneNotFound name)

/-- Every zone, in the order of the names. -/
def zones : Action (List Zone) := do
  (← zoneView.scan none none false).mapM fun e => decodeZone e.2

end ExemptZones.Registry
