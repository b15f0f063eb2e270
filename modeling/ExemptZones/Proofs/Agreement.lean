import ExemptZones.Proofs.Atomicity

/-
Three ways to register a zone with its addresses: a message of the authority, an import of a state with this one
zone, and a migration, whose zone has no flags. They check different things before their first edit and make the same
edits, so that none of them takes what another turns away.

`Change.result_addZone`: what the message checks first, its first edit would find as well.
`Change.end_eq_of_result_eq`: outside a block a change is known by its end and its records.
-/

namespace ExemptZones

/-- The state that holds one zone and its addresses. -/
def GenesisDraft.single (f : Flags) (zone : Text) (addresses : List Text) : GenesisDraft :=
  ⟨[⟨f, zone⟩], [⟨zone, addresses⟩]⟩

namespace Registry

open ExemptZones.Action

/-- The edits that register a zone and then its addresses. -/
def registration (f : Flags) (zone : Text) (addresses : List Text) : List Edit :=
  .addZone ⟨f, zone⟩ :: addresses.map (.addAddress zone)

namespace Change

/-- A message without a zone name fails before its edits, and fails as its first edit would. -/
theorem result_addZone (cfg : Settings) (f : Flags) (zone : Text) (addresses : List Text) (r : Records) :
    result cfg (.message (.addZone ⟨f, cfg.authority, zone, addresses⟩)) r =
      Edit.batch cfg (registration f zone addresses) r := by
  by_cases hn : zone.isEmpty = true
  · have hp : (Edit.addZone ⟨f, zone⟩).plan cfg r = .error (.registry .emptyZoneName) := by simp [Edit.plan, hn]
    rw [registration, Edit.batch_cons_error hp]
    simp [result, check, Message.authority, Message.zone, hn]
  · simp [result, check, Message.authority, Message.zone, hn, edits, registration, ZoneChange.toZone]

theorem edits_single (f : Flags) (zone : Text) (addresses : List Text) :
    edits (.importState (.single f zone addresses)) = registration f zone addresses := by
  simp [edits, GenesisDraft.single, registration]

theorem result_importState (cfg : Settings) (f : Flags) (zone : Text) (addresses : List Text) (r : Records) :
    result cfg (.importState (.single f zone addresses)) r = Edit.batch cfg (registration f zone addresses) r := by
  rw [← edits_single]
  rfl

theorem result_migrate (cfg : Settings) (zone : Text) (addresses : List Text) (r : Records) :
    result cfg (.migrate addresses zone) r = Edit.batch cfg (registration {} zone addresses) r :=
  rfl

/-- Changes that end alike on the records of a store, and leave alike records, end alike and leave alike stores. -/
theorem end_eq_of_result_eq {cfg : Settings} {s : Session} (hs : s.Ready) (c c' : Change)
    (h : c.result cfg s.records = c'.result cfg s.records) :
    ((c.act cfg).run s).1 = ((c'.act cfg).run s).1 ∧ ((c.act cfg).run s).2.store = ((c'.act cfg).run s).2.store := by
  obtain ⟨es, he⟩ := c.does cfg hs
  obtain ⟨es', he'⟩ := c'.does cfg hs
  rw [he, he', h]
  exact ⟨rfl, rfl⟩

/-- The change that a migration is does not answer the count. -/
theorem run_migrate (cfg : Settings) (addresses : List Text) (zone : Text) (s : Session) :
    (act cfg (.migrate addresses zone)).run s =
      (((Registry.migrate cfg addresses zone).run s).1.map fun _ => (),
        ((Registry.migrate cfg addresses zone).run s).2) := by
  simp only [act, run_bind]
  rcases (Registry.migrate cfg addresses zone).run s with ⟨_ | _, _⟩ <;> rfl

end Change

/-- **Three ways to register a zone agree.** Outside a block the message of the authority, the import and, for a
zone without flags, the migration end alike, with the same failure if they fail, and leave the same store; a failure
leaves the store as it was. -/
theorem entry_points_agree (cfg : Settings) (s : Session) (hl : s.store.link = .live) (hq : Quiet s.store) (f : Flags)
    (zone : Text) (addresses : List Text) :
    let sent := (handle cfg (.addZone ⟨f, cfg.authority, zone, addresses⟩)).run s
    let imported := (importState cfg (.single f zone addresses)).run s
    let migrated := (migrate cfg addresses zone).run s
    (imported.1 = sent.1 ∧ imported.2.store = sent.2.store) ∧
    (f = {} → (migrated.1.map fun _ => ()) = sent.1 ∧ migrated.2.store = sent.2.store) ∧
    ∀ e, sent.1 = .error e → sent.2.store = s.store := by
  intro sent imported migrated
  have hs : s.Ready := ⟨hl, fun _ => hq.settled⟩
  have hsent := Change.result_addZone cfg f zone addresses s.records
  refine ⟨?_, fun hf => ?_, fun e he => ?_⟩
  · have himported := Change.result_importState cfg f zone addresses s.records
    exact Change.end_eq_of_result_eq hs (.importState (.single f zone addresses)) (.message (.addZone _))
      (himported.trans hsent.symm)
  · subst hf
    have hmigrated := Change.result_migrate cfg zone addresses s.records
    have h := Change.end_eq_of_result_eq hs (.migrate addresses zone) (.message (.addZone _))
      (hmigrated.trans hsent.symm)
    rw [Change.run_migrate] at h
    exact h
  · obtain ⟨x, s', -, -, hx, hrun⟩ :=
      Call.step ⟨cfg, .message (.addZone ⟨f, cfg.authority, zone, addresses⟩)⟩ hq fun h => nomatch h.1
    obtain ⟨es, h⟩ := hrun s.log
    have hsx : sent = (x, ⟨s', es ++ s.log⟩) := h
    rw [hsx] at he ⊢
    exact hx e he

/-- A store with a foreign record, in which the last address is a member of another zone: all three ways fail at it,
after the zone and an address were written. -/
theorem entry_points_agree_bound :
    let a := "terra1qypqx0kxuu8"
    let b := "terra1qslr6n5t"
    let s : Session := ⟨.ofRecords ((Records.empty.insert [7] [255]).insert (memberKey b) (Utf8.encode "y")), []⟩
    let found : Cause := .alreadyAssociated b "z" "y"
    ((handle {} (.addZone ⟨{}, "", "z", [a, a, b]⟩)).run s).1 = .error (.registry found) ∧
      ((importState {} (.single {} "z" [a, a, b])).run s).1 = .error (.registry found) ∧
      ((migrate {} [a, a, b] "z").run s).1 = .error (.registry found) ∧
      ((migrate {} [a, a, b] "z").run s).2.store = s.store := by
  intro a b s found
  obtain ⟨⟨hi, -⟩, hm, he⟩ := entry_points_agree {} s rfl ⟨rfl, rfl, rfl⟩ {} "z" [a, a, b]
  have hsent : ((handle {} (.addZone ⟨{}, "", "z", [a, a, b]⟩)).run s).1 = .error (.registry found) := by
    decide +kernel
  obtain ⟨hmx, hms⟩ := hm rfl
  refine ⟨hsent, hi.trans hsent, ?_, hms.trans (he _ hsent)⟩
  rw [hsent] at hmx
  generalize ((migrate {} [a, a, b] "z").run s).1 = x at hmx ⊢
  cases x with
  | error e => simpa [Except.map] using hmx
  | ok n => cases hmx

end Registry

end ExemptZones
