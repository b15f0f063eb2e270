import ExemptZones.Proofs.Session
import ExemptZones.Registry.Genesis
import ExemptZones.Registry.Queries

/-
Work that only reads. It leaves the store as it was, also if it fails, and whatever has become of the database.

`Registry.reads_answer`, `Registry.reads_exportState`: no query writes, and no export does.
-/

namespace ExemptZones

open ExemptZones.Action

/-- The work leaves the store as it was, and does not fail as the end of a block does. -/
def Reads {α : Type} (a : Action α) : Prop :=
  ∀ s : Session, (a.run s).2.store = s.store ∧ (a.run s).1 ≠ .error .disconnected

namespace Reads

variable {α β : Type} {a : Action α}

theorem pure (y : α) : Reads (Pure.pure y : Action α) := fun _ => ⟨rfl, nofun⟩

theorem fail {f : Failure} (hf : f ≠ .disconnected) : Reads (Action.fail f : Action α) :=
  fun _ => ⟨rfl, fun h => hf (Except.error.inj h)⟩

theorem blame (c : Cause) : Reads (Action.blame c : Action α) :=
  fail nofun

/-- What would come after a refusal does not matter. -/
theorem refuse (c : Cause) (k : α → Action β) : Reads (Action.blame c >>= k) := fun _ => ⟨rfl, nofun⟩

theorem note (e : Log.Entry) : Reads (Action.note e) := fun _ => ⟨rfl, nofun⟩

theorem bind {k : α → Action β} (ha : Reads a) (hk : ∀ y, Reads (k y)) : Reads (a >>= k) := by
  intro s
  obtain ⟨hs, hn⟩ := ha s
  rw [run_bind]
  rcases h : a.run s with ⟨f | y, t⟩ <;> rw [h] at hs hn
  · exact ⟨hs, fun he => hn (congrArg Except.error (Except.error.inj he))⟩
  · obtain ⟨ht, hn'⟩ := hk y t
    exact ⟨ht.trans hs, hn'⟩

theorem mapM {f : β → Action α} (xs : List β) (h : ∀ x, Reads (f x)) : Reads (xs.mapM f) := by
  induction xs with
  | nil => exact .pure []
  | cons x xs ih =>
    rw [List.mapM_cons]
    exact .bind (h x) fun _ => .bind ih fun _ => .pure _

theorem reach (c : Cause) : Reads (Store.reach c) := by
  rintro ⟨⟨_, _, _, l⟩, _⟩
  cases l <;> exact ⟨rfl, nofun⟩

theorem get (k : Bytes) : Reads (Store.get k) :=
  .bind (.reach _) fun _ => .pure _

theorem has (k : Bytes) : Reads (Store.has k) :=
  .bind (.get k) fun _ => .pure _

theorem scan (start stop : Option Bytes) (reverse : Bool) : Reads (Store.scan start stop reverse) :=
  .bind (.reach _) fun _ => .pure _

theorem scanView (v : View) (start stop : Option Bytes) (reverse : Bool) : Reads (v.scan start stop reverse) :=
  .bind (.scan _ _ _) fun _ => .pure _

end Reads

namespace Registry

theorem reads_decodeZone (b : Bytes) : Reads (decodeZone b) := by
  unfold decodeZone Action.ofChecked
  split
  · exact .pure _
  · exact .fail nofun

theorem reads_decodeText (b : Bytes) : Reads (decodeText b) := by
  unfold decodeText
  split
  · exact .pure _
  · exact .fail nofun

theorem reads_encodable (t : Text) : Reads (encodable t) := by
  cases t with
  | plain s => exact .pure s
  | broken b => exact .fail nofun

theorem reads_hasZone (name : Text) : Reads (hasZone name) := by
  refine .bind (reads_encodable name) fun name => ?_
  split
  · exact .pure _
  · exact .has _

theorem reads_requireZone (name : String) : Reads (requireZone name) := by
  refine .bind (reads_hasZone name) fun b => ?_
  cases b with
  | true => exact .pure _
  | false => exact .blame _

theorem reads_zoneNameOf (party : Party) : Reads (zoneNameOf party) := by
  cases party with
  | unspecified | unencodable => exact .pure none
  | named address =>
    simp only [zoneNameOf]
    split
    · exact .pure none
    · refine .bind (.get _) fun b => ?_
      cases b with
      | none => exact .pure none
      | some b => exact .bind (reads_decodeText b) fun _ => .pure _

theorem reads_resolve (party : Party) (cache : Cache) : Reads (resolve party cache) := by
  refine .bind (reads_zoneNameOf party) fun name => ?_
  cases name with
  | none => exact .pure _
  | some name =>
    dsimp only
    split
    · exact .pure _
    · refine .bind (.get _) fun b => ?_
      cases b with
      | none => exact .pure _
      | some b => exact .bind (reads_decodeZone b) fun _ => .pure _

theorem reads_isExempt (sender recipient : Party) : Reads (isExempt sender recipient) :=
  .bind (reads_resolve sender []) fun p => .bind (reads_resolve recipient p.2) fun _ => .pure _

theorem reads_isTaxable (sender recipient : Party) : Reads (isTaxable sender recipient) :=
  .bind (reads_isExempt sender recipient) fun _ => .pure _

theorem reads_paginate (v : View) (request : Option PageRequest) (wanted : Record → Bool) :
    Reads (paginate v request wanted) := by
  unfold paginate
  dsimp only
  split
  · exact .refuse _ _
  · exact .bind (.scanView _ _ _ _) fun _ => .pure _

theorem reads_listZones (request : Option PageRequest) : Reads (listZones request) :=
  .bind (reads_paginate _ _ _) fun _ => .bind (.mapM _ fun e => reads_decodeZone e.2) fun _ => .pure _

theorem reads_listAddresses (zone : Text) (request : Option PageRequest) : Reads (listAddresses zone request) :=
  .bind (reads_encodable zone) fun _ => .bind (reads_paginate _ _ _) fun _ =>
    .bind (.mapM _ fun e => reads_decodeText e.1) fun _ => .pure _

theorem reads_getZone (name : Text) : Reads (getZone name) := by
  refine .bind (reads_encodable name) fun name => .bind (.get _) fun b => ?_
  cases b with
  | none => exact .blame _
  | some b => exact reads_decodeZone b

theorem reads_zones : Reads zones :=
  .bind (.scanView _ _ _ _) fun _ => .mapM _ fun e => reads_decodeZone e.2

theorem reads_memberships : Reads memberships :=
  .bind (.scanView _ _ _ _) fun _ => .mapM _ fun e =>
    .bind (reads_decodeText e.1) fun _ => .bind (reads_decodeText e.2) fun _ => .pure _

/-- **No query writes.** -/
theorem reads_answer (q : Option Query) : Reads (answer q) := by
  rcases q with _ | q
  · exact .blame _
  · cases q with
    | taxable sender recipient => exact .bind (reads_isTaxable sender recipient) fun _ => .pure _
    | zones p => exact .bind (reads_listZones p) fun _ => .pure _
    | addresses z p => exact .bind (reads_listAddresses z p) fun _ => .pure _
    | zone n => exact .bind (reads_getZone n) fun _ => .pure _

theorem reads_registeredMembers (names : List String) (es : List Record) : Reads (registeredMembers names es) := by
  induction es with
  | nil => exact .pure []
  | cons e es ih =>
    refine .bind (reads_decodeText e.1) fun address => .bind (reads_decodeText e.2) fun zone => ?_
    split
    · exact .bind ih fun _ => .pure _
    · exact .bind (.note _) fun _ => ih

/-- **No export writes.** -/
theorem reads_exportState (cfg : Settings) : Reads (exportState cfg) := by
  refine .bind reads_zones fun zs => .bind (.scanView _ _ _ _) fun es =>
    .bind (reads_registeredMembers _ es) fun members => ?_
  dsimp only
  split
  · exact .pure _
  · exact .blame _

end Registry

end ExemptZones
