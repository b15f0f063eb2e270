import ExemptZones.Json.Reader
import ExemptZones.Json.Writer
import ExemptZones.Shape.Record

/-
A zone: a named group of addresses and what its members may do without the levy.
-/

namespace ExemptZones

/-- What members of a zone may do without the levy. -/
structure Flags where
  /-- Send out of the zone. -/
  outgoing : Bool := false
  /-- Receive from outside the zone. -/
  incoming : Bool := false
  /-- The other two flags also count toward a different zone. -/
  crossZone : Bool := false
  deriving DecidableEq, Repr, Inhabited

structure Zone extends Flags where
  name : String
  deriving DecidableEq, Repr, Inhabited

/-- A zone as it comes from outside, where its name may be a text that cannot be stored. -/
structure ZoneDraft extends Flags where
  name : Text
  deriving DecidableEq, Repr

def Zone.draft (z : Zone) : ZoneDraft :=
  ⟨z.toFlags, z.name⟩

instance : Coe Zone ZoneDraft := ⟨Zone.draft⟩

@[simp] theorem Zone.name_draft (z : Zone) : z.draft.name = z.name := rfl

namespace Flags

open Shape

def fieldNames : List String := ["outgoing", "incoming", "cross_zone"]

def ofEntries (es : Entries) : Checked Flags :=
  (((fieldOr "outgoing" flag false es).both (fieldOr "incoming" flag false es)).both
    (fieldOr "cross_zone" flag false es)).map fun ((o, i), c) => ⟨o, i, c⟩

def fields (f : Flags) : List (String × Value) :=
  [("outgoing", .bool f.outgoing), ("incoming", .bool f.incoming), ("cross_zone", .bool f.crossZone)]

end Flags

namespace Zone

open Shape

def title : String := "Zone"

/-- The flags and the name of a zone, the name read in some way. -/
def parts {α : Type} (name : Reader α) : Reader (Flags × α) :=
  record ("name" :: Flags.fieldNames) fun es =>
    ((fieldOf "name" name es).both (Flags.ofEntries es)).map fun (n, f) => (f, n)

def ofValue : Reader Zone := fun v =>
  (parts plainText v).map fun (f, n) => ⟨f, n⟩

def toValue (z : Zone) : Value :=
  .object (("name", .text z.name) :: z.toFlags.fields)

theorem ofValue_toValue (z : Zone) : ofValue z.toValue = .ok z := by
  obtain ⟨⟨o, i, c⟩, n⟩ := z
  simp [ofValue, parts, toValue, Value.object, Flags.fields, record, fieldOf, fieldOr, Flags.ofEntries, field?,
    plainText, text, flag, strangers, Flags.fieldNames, Except.map]

/-- The record of a zone: its fields as JSON on one line. -/
def toJson (z : Zone) : String :=
  Json.write .compact z.toValue

/-- The zone that a JSON text stands for. -/
def ofJson (s : String) : Checked Zone :=
  match Json.read .refused s with
  | some v => ofValue v
  | none => refuse .notJson

/-- The record of a zone in the store. -/
def encode (z : Zone) : Bytes :=
  Utf8.encode z.toJson

/-- The zone that a record stands for. Bytes that are no text are no JSON. -/
def decode (b : Bytes) : Checked Zone :=
  match Utf8.decode? b with
  | some s => ofJson s
  | none => refuse .notJson

end Zone

namespace ZoneDraft

open Shape

def ofValue : Reader ZoneDraft := fun v =>
  (Zone.parts text v).map fun (f, n) => ⟨f, n⟩

def toValue (z : ZoneDraft) : Value :=
  .object (("name", .ofText z.name) :: z.toFlags.fields)

theorem ofValue_toValue (z : Zone) : ofValue z.toValue = .ok z := by
  obtain ⟨⟨o, i, c⟩, n⟩ := z
  simp [ofValue, Zone.parts, Zone.toValue, Zone.draft, Value.object, Flags.fields, record, fieldOf, fieldOr,
    Flags.ofEntries, field?, text, flag, strangers, Flags.fieldNames, Except.map]

/-- The zone, if its name can be stored. -/
def zone? (z : ZoneDraft) : Option Zone :=
  z.name.plain?.map fun n => ⟨z.toFlags, n⟩

@[simp] theorem zone?_coe (z : Zone) : (z : ZoneDraft).zone? = some z := rfl

theorem zone?_eq_some_iff {d : ZoneDraft} {z : Zone} : d.zone? = some z ↔ d = z := by
  obtain ⟨f, n⟩ := d
  obtain ⟨g, m⟩ := z
  cases n <;> simp [zone?, Text.plain?, Zone.draft]

end ZoneDraft

end ExemptZones
