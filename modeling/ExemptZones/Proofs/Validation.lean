import ExemptZones.Proofs.Import

/-
What the validation of a genesis state promises about its import. It looks at the shape of the document: as many
groups as zones, each group of a listed zone, every address well-formed. It does not look whether the names of the
zones are empty or can be encoded, nor for an address in two places; those are left to the import, which meets them one
record at a time.

`validate_eq_ok_iff`: what validation asks for.
`validated_imports_iff`: what is still to be asked of a validated state.
-/

namespace ExemptZones

namespace GenesisDraft

theorem forall_valid_of_validateAddresses {hrp : String} {xs : List Text} (h : validateAddresses hrp xs = .ok ()) :
    ∀ a ∈ xs, ∃ raw, Address.validate a hrp = .ok raw := by
  induction xs with
  | nil => exact nofun
  | cons a xs ih =>
    rw [validateAddresses] at h
    split at h
    · rename_i raw hv
      exact List.forall_mem_cons.2 ⟨⟨raw, hv⟩, ih h⟩
    · cases h

/-- What validation asks of the groups of a state that lists the zones `names`. -/
def Grouped (names : List Text) (hrp : String) (gs : List GroupDraft) : Prop :=
  ∀ p ∈ gs, p.zone ∈ names ∧ ∀ a ∈ p.addresses, ∃ raw, Address.validate a hrp = .ok raw

theorem grouped_of_validateGroups {names : List Text} {hrp : String} {gs : List GroupDraft}
    (h : validateGroups names hrp gs = .ok ()) : Grouped names hrp gs := by
  induction gs with
  | nil => exact nofun
  | cons p gs ih =>
    rw [validateGroups] at h
    cases hz : names.contains p.zone with
    | false =>
      rw [hz] at h
      cases h
    | true =>
      rw [hz] at h
      cases ha : validateAddresses hrp p.addresses with
      | error c =>
        rw [ha] at h
        cases h
      | ok u =>
        rw [ha] at h
        exact List.forall_mem_cons.2 ⟨⟨List.contains_iff_mem.1 hz, forall_valid_of_validateAddresses ha⟩, ih h⟩

theorem validate_eq_ok_iff {g : GenesisDraft} {hrp : String} :
    g.validate hrp = .ok () ↔ g.zones.length = g.groups.length ∧ Grouped (g.zones.map (·.name)) hrp g.groups := by
  rw [validate]
  by_cases hl : g.zones.length = g.groups.length
  · rw [if_neg (not_not.2 hl), and_iff_right hl]
    exact ⟨grouped_of_validateGroups, fun h =>
      Registry.validateGroups_eq_ok (fun p hp => (h p hp).1) fun p hp => (h p hp).2⟩
  · rw [if_pos hl]
    exact ⟨(by intro h; cases h), fun h => absurd h.1 hl⟩

/-- A validated state fits into an empty registry if its zones have names with an encoded form and no address is in two
of them. -/
theorem importable_iff_of_validate {g : GenesisDraft} {hrp : String} (h : g.validate hrp = .ok ()) :
    g.Importable hrp [] [] ↔ (∀ z ∈ g.zones, z.name ≠ "" ∧ ∃ n : String, z.name = n) ∧
      ∀ p ∈ g.groups, ∀ q ∈ g.groups, ∀ a ∈ p.addresses, a ∈ q.addresses → p.zone = q.zone := by
  have hg := (validate_eq_ok_iff.1 h).2
  refine ⟨fun hi => ⟨fun z hz => ⟨hi.named z hz, hi.encoded z hz⟩, hi.apart⟩, fun ⟨hn, ha⟩ => ?_⟩
  have hplaced : ∀ p ∈ g.groups, ∃ z ∈ g.zones, p.zone = z.name := fun p hp => by
    obtain ⟨z, hz, he⟩ := List.mem_map.1 (hg p hp).1
    exact ⟨z, hz, he.symm⟩
  exact { named := fun z hz => (hn z hz).1, encoded := fun z hz => (hn z hz).2,
          placed := fun p hp _ => .inr (hplaced p hp), valid := fun p hp => (hg p hp).2, apart := ha,
          free := fun _ _ _ _ _ hm => absurd hm List.not_mem_nil }

end GenesisDraft

namespace Registry

open ExemptZones.Action

/-- **When a validated state can be imported** into an empty store: if its zones have names, these have an encoded
form, and no address is in groups of two zones. Nothing else makes the import of a validated state fail. -/
theorem validated_imports_iff (cfg : Settings) (g : GenesisDraft) (h : g.validate cfg.addressPrefix = .ok ()) :
    (∃ t, (importState cfg g).run start = (.ok (), t)) ↔
      (∀ z ∈ g.zones, z.name ≠ "" ∧ ∃ n : String, z.name = n) ∧
        ∀ p ∈ g.groups, ∀ q ∈ g.groups, ∀ a ∈ p.addresses, a ∈ q.addresses → p.zone = q.zone := by
  have hs : start.Ready := ⟨rfl, fun _ => rfl⟩
  obtain ⟨es, hrun⟩ := Change.does cfg hs (.importState g)
  have hiff := (Holds.empty cfg.addressPrefix).import_draft_iff g
  rw [← GenesisDraft.importable_iff_of_validate h]
  constructor
  · rintro ⟨t, ht⟩
    rw [show importState cfg g = Change.act cfg (.importState g) from rfl, hrun] at ht
    have hok : (Change.result cfg (.importState g) .empty).1 = .ok () := congrArg Prod.fst ht
    exact ((hiff _).1 (Prod.ext hok rfl)).1
  · intro hi
    have hok := (hiff _).2 ⟨hi, rfl⟩
    rw [show start.records = Records.empty from rfl, hok] at hrun
    exact ⟨_, hrun⟩

/-- Groups in another order than the zones, one zone listed twice, and one address repeated in groups of one zone. -/
theorem validated_imports_iff_repeats :
    let a := "terra1qypqx0kxuu8"
    let g : GenesisDraft :=
      ⟨[⟨{}, "a"⟩, ⟨{}, "b"⟩, ⟨⟨true, false, true⟩, "a"⟩], [⟨"b", [a]⟩, ⟨"a", []⟩, ⟨"b", [a, a]⟩]⟩
    g.validate "terra" = .ok () ∧ ∃ t, (importState {} g).run start = (.ok (), t) := by
  intro a g
  have hv : g.validate "terra" = .ok () := by decide +kernel
  refine ⟨hv, (validated_imports_iff {} g hv).2 ⟨?_, ?_⟩⟩ <;> simp [g]

/-- Validation alone does not promise that the import succeeds: an address may be in groups of two zones, a zone may
have no name, and its name may have no encoded form. -/
theorem validated_import_fails :
    (let a := "terra1qypqx0kxuu8"
     let g : GenesisDraft := ⟨[⟨{}, "a"⟩, ⟨{}, "b"⟩], [⟨"a", [a]⟩, ⟨"b", [a]⟩]⟩
     g.validate "terra" = .ok () ∧ ((importState {} g).run start).1 = .error (.registry (.alreadyAssociated a "b" "a"))) ∧
    (let g : GenesisDraft := ⟨[⟨{}, ""⟩], [⟨"", []⟩]⟩
     g.validate "terra" = .ok () ∧ ((importState {} g).run start).1 = .error (.registry .emptyZoneName)) ∧
    (let half : Text := .broken ⟨[.half 0xd800], rfl⟩
     let g : GenesisDraft := ⟨[⟨{}, half⟩], [⟨half, []⟩]⟩
     g.validate "terra" = .ok () ∧ ((importState {} g).run start).1 = .error .unencodable) := by
  decide +kernel

end Registry

end ExemptZones
