import ExemptZones.Proofs.Contents
import ExemptZones.Registry.Membership

/-
The five edits that every change of the registry is made of, each as a function of the records alone: it
either fails and writes nothing, or says what the records are afterwards and what is logged (`Edit.plan`).

`Edit.run_act`: the actions of the registry do what the plans say.
`Edit.makes_of_plan`: what an edit that goes through makes of the records, case by case.
`dropZone`: removing a zone leaves exactly the records that are not about it.
-/

namespace ExemptZones.Registry

open ExemptZones.Action

/-! ## Keys -/

def zoneKey (name : String) : Bytes :=
  zoneView.key (Utf8.encode name)

def memberKey (address : String) : Bytes :=
  memberView.key (Utf8.encode address)

theorem zoneKey_inj {m n : String} : zoneKey m = zoneKey n ↔ m = n :=
  ⟨fun h => Utf8.encode_injective (View.key_injective h), fun h => h ▸ rfl⟩

/-- The two views share no key. -/
theorem zoneView_key_ne_memberView_key (k k' : Bytes) : zoneView.key k ≠ memberView.key k' := by
  intro h
  have hb : (1 : UInt8) = 2 := (List.cons.inj h).1
  exact absurd hb (by decide)

/-! ## What the records say -/

/-- Whether a zone of that name is registered. No zone has the empty name. -/
def registered (r : Records) (name : String) : Bool :=
  !name.isEmpty && (r.get? (zoneKey name)).isSome

/-- The name of the zone that a party is a member of, if the record of the membership is a text. -/
def membership (r : Records) : Party → Except Failure (Option String)
  | .unspecified | .unencodable _ => .ok none
  | .named address =>
    if address.isEmpty then .ok none
    else
      match r.get? (memberKey address) with
      | none => .ok none
      | some b =>
        match Utf8.decode? b with
        | some name => .ok (some name)
        | none => .error .notUtf8

/-- Whether a record is about a zone: the zone's own, or a membership in it. -/
def concerns (name : String) (e : Record) : Bool :=
  e.1 = zoneKey name || (memberView.beginning.isPrefixOf e.1 && e.2 = Utf8.encode name)

/-- The records that are not about a zone. -/
def dropZone (name : String) (r : Records) : Records :=
  r.keep fun e => !concerns name e

/-- How many addresses are members of a zone. -/
def memberCount (name : String) (r : Records) : Nat :=
  (membersOf (Utf8.encode name) (memberView.contents r)).length

/-- A membership that can be read has the encoded name of its zone for a value. -/
theorem get?_of_membership {r : Records} {address : String} {o : Option String} (ha : address.isEmpty = false)
    (h : membership r (.named address) = .ok o) : r.get? (memberKey address) = o.map Utf8.encode := by
  simp only [membership, ha, Bool.false_eq_true, if_false] at h
  cases hb : r.get? (memberKey address) with
  | none =>
    rw [hb] at h
    cases h
    rfl
  | some b =>
    rw [hb] at h
    cases hn : Utf8.decode? b with
    | none => simp [hn] at h
    | some name =>
      simp only [hn, Except.ok.injEq] at h
      rw [← h, Option.map_some, ← Utf8.decode?_eq_some_iff.1 hn]

theorem isEmpty_of_validate {address hrp : String} {raw : Bytes} (h : Address.validate address hrp = .ok raw) :
    address.isEmpty = false := by
  rw [← Bool.not_eq_true, String.isEmpty_iff]
  rintro rfl
  cases h

/-- An address can be stored. -/
theorem eq_plain_of_validate {address : Text} {hrp : String} {raw : Bytes} (h : Address.validate address hrp = .ok raw) :
    ∃ a : String, address = a := by
  cases address with
  | plain a => exact ⟨a, rfl⟩
  | broken b => cases h

@[simp] theorem encodable_plain (s : String) : encodable s = pure s := rfl

@[simp] theorem storable_draft (z : Zone) : storable z = pure z := rfl

variable {s : Session}

theorem run_hasZone (hs : s.store.link = .live) (name : String) :
    (hasZone name).run s = (.ok (registered s.records name), s) := by
  unfold hasZone registered
  rw [encodable_plain, pure_bind]
  split
  · rename_i h; simp [h]
  · rename_i h; simp [h, zoneView.run_has hs, zoneKey]

theorem run_requireZone (hs : s.store.link = .live) (name : String) :
    (requireZone name).run s =
      (if registered s.records name then .ok () else .error (.registry (.zoneNotFound name)), s) := by
  cases h : registered s.records name <;> simp [requireZone, run_hasZone hs, h]

theorem run_zoneNameOf (hs : s.store.link = .live) (party : Party) :
    (zoneNameOf party).run s = (membership s.records party, s) := by
  cases party with
  | unspecified | unencodable => rfl
  | named address =>
    simp only [zoneNameOf, membership]
    split
    · rfl
    · simp only [run_bind, memberView.run_get hs, memberKey]
      cases s.records.get? (memberView.key (Utf8.encode address)) with
      | none => rfl
      | some b =>
        simp only [run_bind, decodeText]
        cases Utf8.decode? b <;> rfl

/-! ## Removing a zone -/

theorem mem_membersOf {name a : Bytes} {es : List Record} : a ∈ membersOf name es ↔ (a, name) ∈ es := by
  simp [membersOf]

theorem contents_erase_zoneKey (name : String) (r : Records) :
    memberView.contents (r.erase (zoneKey name)) = memberView.contents r := by
  simp only [View.contents, Records.erase, Records.eraseFrom, List.filter_filter]
  refine congrArg _ (List.filter_congr fun e _ => ?_)
  by_cases h : memberView.beginning.isPrefixOf e.1 = true
  · obtain ⟨k, hk⟩ := View.isPrefixOf_iff.1 h
    simp [hk, zoneKey, (zoneView_key_ne_memberView_key _ k).symm]
  · simp [h]

/-- The memberships that go away with a zone are those whose value is its name. -/
theorem mem_members_iff {name : String} {r : Records} {k v : Bytes} (hm : (k, v) ∈ r.entries) :
    k ∈ (membersOf (Utf8.encode name) (memberView.contents r)).map memberView.key ↔
      memberView.beginning.isPrefixOf k = true ∧ v = Utf8.encode name := by
  have hk : r.get? k = some v := Records.mem_entries_iff.1 hm
  simp only [List.mem_map, mem_membersOf, View.mem_contents, View.isPrefixOf_iff]
  constructor
  · rintro ⟨a, ha, rfl⟩
    exact ⟨⟨a, rfl⟩, Option.some.inj (hk.symm.trans ha)⟩
  · rintro ⟨⟨a, rfl⟩, rfl⟩
    exact ⟨a, hk, rfl⟩

theorem foldl_erase_members (name : String) (r : Records) :
    ((membersOf (Utf8.encode name) (memberView.contents r)).map memberView.key).foldl Records.erase
      (r.erase (zoneKey name)) = dropZone name r := by
  rw [Records.foldl_erase, Records.erase_eq_keep, Records.keep_keep, dropZone]
  refine Records.keep_congr fun ⟨k, v⟩ hm => ?_
  rw [Bool.eq_iff_iff]
  simp only [concerns, Bool.and_eq_true, Bool.not_eq_true', Bool.or_eq_false_iff, List.contains_eq_mem,
    decide_eq_false_iff_not, decide_eq_true_eq, mem_members_iff hm, Bool.and_eq_false_iff]
  grind

/-- The work of a removal. The members are looked for after the zone is gone, which makes no difference to
them. -/
theorem run_erasures (hs : s.Ready) (name : String) :
    (do
      zoneView.delete (Utf8.encode name)
      let members := membersOf (Utf8.encode name) (← memberView.scan none none false)
      members.forM memberView.delete
      return members.length : Action Nat).run s =
      (.ok (memberCount name s.records), (s.write (dropZone name s.records)).tell []) := by
  have hw := hs.write (s.records.erase (zoneKey name))
  simp only [run_bind, zoneView.run_delete hs.live]
  rw [← zoneKey]
  simp only [memberView.run_scan hw.live, memberView.run_forM_delete hw, Session.records_write, run_pure,
    Session.write_write, Session.tell_nil, contents_erase_zoneKey, foldl_erase_members, memberCount]

theorem run_removeZone (hs : s.Ready) (name : String) :
    (removeZone name).run s =
      if registered s.records name then
        (.ok (), (s.write (dropZone name s.records)).tell [.removedZone name (memberCount name s.records)])
      else (.error (.registry (.zoneNotFound name)), s) := by
  unfold removeZone
  rw [encodable_plain, pure_bind, run_bind, run_requireZone hs.live]
  cases registered s.records name with
  | false => simp
  | true =>
    have hb := Store.run_transaction_ok hs.live (run_erasures (Store.ready_enter hs.live) name)
    rw [if_pos rfl, if_pos rfl]
    simp only [run_bind, hb, run_note]
    rfl

/-! ## Edits -/

inductive Edit where
  | addZone (z : ZoneDraft)
  | modifyZone (z : ZoneDraft)
  | removeZone (name : Text)
  | addAddress (zone address : Text)
  | removeAddress (zone address : Text)
  deriving DecidableEq, Repr

namespace Edit

/-- The action that makes the edit. -/
def act (cfg : Settings) : Edit → Action Unit
  | .addZone z => Registry.addZone z
  | .modifyZone z => Registry.modifyZone z
  | .removeZone name => Registry.removeZone name
  | .addAddress zone address => Registry.addAddress cfg zone address
  | .removeAddress zone address => Registry.removeAddress cfg zone address

/-- What an edit makes of the records and what it logs, or why it fails. -/
def plan (cfg : Settings) : Edit → Records → Except Failure (Records × List Log.Entry)
  | .addZone d, r =>
    if d.name.isEmpty then .error (.registry .emptyZoneName)
    else
      match d.zone? with
      | none => .error .unencodable
      | some z => .ok (r.insert (zoneKey z.name) z.encode, [.storedZone z.name])
  | .modifyZone d, r =>
    if d.name.isEmpty then .error (.registry .emptyZoneName)
    else
      match d.zone? with
      | none => .error .unencodable
      | some z =>
        if registered r z.name then .ok (r.insert (zoneKey z.name) z.encode, [.modifiedZone z.name])
        else .error (.registry (.zoneNotFound z.name))
  | .removeZone (.plain name), r =>
    if registered r name then .ok (dropZone name r, [.removedZone name (memberCount name r)])
    else .error (.registry (.zoneNotFound name))
  | .addAddress (.plain zone) address, r =>
    if registered r zone then
      match Address.validate address cfg.addressPrefix, address with
      | .error fault, _ => .error (.registry (.invalidAddress address fault))
      | .ok _, .broken _ => .error .unencodable
      | .ok _, .plain address =>
        match membership r (.named address) with
        | .error f => .error f
        | .ok none => .ok (r.insert (memberKey address) (Utf8.encode zone), [.addedAddress address zone])
        | .ok (some current) =>
          if current = zone then .ok (r, []) else .error (.registry (.alreadyAssociated address zone current))
    else .error (.registry (.zoneNotFound zone))
  | .removeAddress (.plain zone) address, r =>
    if registered r zone then
      match Address.validate address cfg.addressPrefix, address with
      | .error fault, _ => .error (.registry (.notMember zone address (some fault)))
      | .ok _, .broken _ => .error .unencodable
      | .ok _, .plain address =>
        match membership r (.named address) with
        | .error f => .error f
        | .ok current =>
          if current = some zone then .ok (r.erase (memberKey address), [.removedAddress address zone])
          else .error (.registry (.notMember zone address none))
    else .error (.registry (.zoneNotFound zone))
  | .removeZone (.broken _), _ | .addAddress (.broken _) _, _ | .removeAddress (.broken _) _, _ => .error .unencodable

/-- The end of an edit and the session after it, as planned. -/
def ending (cfg : Settings) (e : Edit) (s : Session) : Except Failure Unit × Session :=
  match e.plan cfg s.records with
  | .ok (r, es) => (.ok (), (s.write r).tell es)
  | .error f => (.error f, s)

/-- **An edit does what its plan says.** If it fails, the session is as it was. -/
theorem run_act (cfg : Settings) (hs : s.Ready) (e : Edit) : (e.act cfg).run s = e.ending cfg s := by
  have hl := hs.live
  cases e with
  | addZone d =>
    simp only [act, Registry.addZone, ending, plan]
    split
    · rfl
    · obtain ⟨f, name⟩ := d
      cases name with
      | broken b => rfl
      | plain name => simp only [storable, encodable_plain, pure_bind, run_bind, zoneView.run_set hl, run_note]; rfl
  | modifyZone d =>
    simp only [act, Registry.modifyZone, ending, plan]
    split
    · rfl
    · obtain ⟨f, name⟩ := d
      cases name with
      | broken b => rfl
      | plain name =>
        simp only [storable, encodable_plain, pure_bind, run_bind, run_requireZone hl, ZoneDraft.zone?, Text.plain?,
          Option.map_some]
        cases registered s.records name with
        | false => rfl
        | true => simp only [if_true, zoneView.run_set hl, run_note]; rfl
  | removeZone name =>
    cases name with
    | broken b => rfl
    | plain name =>
      simp only [act, run_removeZone hs, ending, plan]
      split <;> rfl
  | addAddress zone address =>
    cases zone with
    | broken b => rfl
    | plain zone =>
      simp only [act, Registry.addAddress, ending, plan, encodable_plain, pure_bind, run_bind, run_requireZone hl]
      cases registered s.records zone with
      | false => rfl
      | true =>
        cases hv : Address.validate address cfg.addressPrefix with
        | error fault => rfl
        | ok raw =>
          obtain ⟨address, rfl⟩ := eq_plain_of_validate hv
          simp only [if_true, encodable_plain, pure_bind, run_bind, run_zoneNameOf hl]
          rcases membership s.records (.named address) with f | _ | current
          · rfl
          · simp only [run_bind, memberView.run_set hl, run_note]; rfl
          · by_cases hc : current = zone
            · simp [hc, hs.write_records]
            · simp [hc]
  | removeAddress zone address =>
    cases zone with
    | broken b => rfl
    | plain zone =>
      simp only [act, Registry.removeAddress, ending, plan, encodable_plain, pure_bind, run_bind, run_requireZone hl]
      cases registered s.records zone with
      | false => rfl
      | true =>
        cases hv : Address.validate address cfg.addressPrefix with
        | error fault => rfl
        | ok raw =>
          obtain ⟨address, rfl⟩ := eq_plain_of_validate hv
          simp only [if_true, encodable_plain, pure_bind, run_bind, run_zoneNameOf hl]
          cases membership s.records (.named address) with
          | error f => rfl
          | ok current =>
            by_cases hc : current = some zone
            · simp only [hc, ne_eq, not_true, if_false, if_true, run_bind, memberView.run_delete hl, run_note]; rfl
            · simp [hc]

/-! ## What an edit makes of the records -/

/-- The records `r'` are what an edit that goes through makes of the records `r`, and why it could. -/
inductive Makes (hrp : String) (r : Records) : Edit → Records → Prop where
  | addZone {z : Zone} (named : z.name ≠ "") : Makes hrp r (.addZone z) (r.insert (zoneKey z.name) z.encode)
  | modifyZone {z : Zone} (named : z.name ≠ "") (there : registered r z.name = true) :
    Makes hrp r (.modifyZone z) (r.insert (zoneKey z.name) z.encode)
  | removeZone {name : String} (there : registered r name = true) :
    Makes hrp r (.removeZone name) (dropZone name r)
  | addAddress {zone address : String} {raw : Bytes} (there : registered r zone = true)
    (valid : Address.validate address hrp = .ok raw) (free : r.get? (memberKey address) = none) :
    Makes hrp r (.addAddress zone address) (r.insert (memberKey address) (Utf8.encode zone))
  | keepAddress {zone address : String} {raw : Bytes} (there : registered r zone = true)
    (valid : Address.validate address hrp = .ok raw) (bound : r.get? (memberKey address) = some (Utf8.encode zone)) :
    Makes hrp r (.addAddress zone address) r
  | removeAddress {zone address : String} {raw : Bytes} (there : registered r zone = true)
    (valid : Address.validate address hrp = .ok raw) (bound : r.get? (memberKey address) = some (Utf8.encode zone)) :
    Makes hrp r (.removeAddress zone address) (r.erase (memberKey address))

/-- **An edit that goes through makes of the records what `Makes` says.** -/
theorem makes_of_plan {cfg : Settings} {e : Edit} {r r' : Records} {es : List Log.Entry}
    (h : e.plan cfg r = .ok (r', es)) : e.Makes cfg.addressPrefix r r' := by
  cases e with
  | addZone d =>
    simp only [plan] at h
    split at h
    · cases h
    · rename_i hn
      split at h
      · cases h
      · rename_i z hz
        cases h
        obtain rfl := ZoneDraft.zone?_eq_some_iff.1 hz
        exact .addZone (by simpa [Zone.draft] using hn)
  | modifyZone d =>
    simp only [plan] at h
    split at h
    · cases h
    · rename_i hn
      split at h
      · cases h
      · rename_i z hz
        obtain rfl := ZoneDraft.zone?_eq_some_iff.1 hz
        split at h
        · rename_i hz
          cases h
          exact .modifyZone (by simpa [Zone.draft] using hn) hz
        · cases h
  | removeZone name =>
    cases name with
    | broken b => cases h
    | plain name =>
      simp only [plan] at h
      split at h
      · rename_i hz
        cases h
        exact .removeZone hz
      · cases h
  | addAddress zone address =>
    cases zone with
    | broken b => cases h
    | plain zone =>
      simp only [plan] at h
      split at h
      · rename_i hz
        split at h
        · cases h
        · cases h
        · rename_i raw address hv
          split at h
          · cases h
          · rename_i hm
            cases h
            exact .addAddress hz hv (get?_of_membership (isEmpty_of_validate hv) hm)
          · rename_i current hm
            split at h
            · rename_i hc
              cases h
              subst hc
              exact .keepAddress hz hv (get?_of_membership (isEmpty_of_validate hv) hm)
            · cases h
      · cases h
  | removeAddress zone address =>
    cases zone with
    | broken b => cases h
    | plain zone =>
      simp only [plan] at h
      split at h
      · rename_i hz
        split at h
        · cases h
        · cases h
        · rename_i raw address hv
          split at h
          · cases h
          · rename_i current hm
            split at h
            · rename_i hc
              cases h
              subst hc
              exact .removeAddress hz hv (get?_of_membership (isEmpty_of_validate hv) hm)
            · cases h
      · cases h

end Edit

end ExemptZones.Registry
