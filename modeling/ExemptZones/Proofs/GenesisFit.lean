import ExemptZones.Proofs.Snapshot

/-
Genesis states that fit into a registry. A state need not be validated first: it may list a zone more than once, give a
zone several groups, and repeat an address. A state from outside may also name what has no encoded form.

`GenesisState.Fits`, `GenesisDraft.Importable`: what makes a state fit, of one that can be stored and of any.
`GenesisDraft.importable_iff`: for a state that can be stored the two are the same.
`GenesisState.NormalForm.unique`: what an export gives back of an import is settled by what the state lists.
-/

namespace ExemptZones

/-! ## What a genesis state lists -/

namespace GenesisState

/-- Each address that is listed, with the zone of its group. -/
def members (g : GenesisState) : List (String × String) :=
  g.groups.flatMap fun p => p.addresses.map fun a => (a, p.zone)

/-- The last entry of a name among the zones. -/
def zone? (g : GenesisState) (name : String) : Option Zone :=
  g.zones.reverse.find? fun z => z.name = name

theorem mem_members {g : GenesisState} {m : String × String} :
    m ∈ g.members ↔ ∃ p ∈ g.groups, m.1 ∈ p.addresses ∧ p.zone = m.2 := by
  simp only [members, List.mem_flatMap, List.mem_map]
  constructor
  · rintro ⟨p, hp, a, ha, rfl⟩
    exact ⟨p, hp, ha, rfl⟩
  · rintro ⟨p, hp, ha, hz⟩
    exact ⟨p, hp, m.1, ha, by rw [hz]⟩

theorem forall_mem_members {g : GenesisState} {P : String × String → Prop} :
    (∀ m ∈ g.members, P m) ↔ ∀ p ∈ g.groups, ∀ a ∈ p.addresses, P (a, p.zone) := by
  constructor
  · intro h p hp a ha
    exact h _ (mem_members.2 ⟨p, hp, ha, rfl⟩)
  · rintro h ⟨a, n⟩ hm
    obtain ⟨p, hp, ha, rfl⟩ := mem_members.1 hm
    exact h p hp a ha

theorem zone?_eq_none_iff {g : GenesisState} {name : String} :
    g.zone? name = none ↔ name ∉ g.zones.map (·.name) := by
  simp [zone?, List.find?_eq_none]

/-- What makes a state fit into a registry of the zones `zs` and the memberships `ms`. -/
structure Fits (hrp : String) (zs : List Zone) (ms : List (String × String)) (g : GenesisState) : Prop where
  named : ∀ z ∈ g.zones, z.name ≠ ""
  /-- A group that has addresses is that of a zone, an old or a new one. -/
  placed : ∀ p ∈ g.groups, p.addresses ≠ [] → p.zone ∈ zs.map (·.name) ∨ p.zone ∈ g.zones.map (·.name)
  valid : ∀ p ∈ g.groups, ∀ a ∈ p.addresses, ∃ raw, Address.validate a hrp = .ok raw
  /-- No address is in groups of two zones. -/
  apart : ∀ p ∈ g.groups, ∀ q ∈ g.groups, ∀ a ∈ p.addresses, a ∈ q.addresses → p.zone = q.zone
  /-- No address is a member of another zone already. -/
  free : ∀ p ∈ g.groups, ∀ a ∈ p.addresses, ∀ n, (a, n) ∈ ms → n = p.zone

/-- The state `n` says what `g` says, in order and without repeats: of the entries of one name the last, and
one group for each zone. -/
structure NormalForm (g n : GenesisState) : Prop where
  ascending : (n.zones.map (·.name)).Pairwise (· < ·)
  zones : ∀ z, z ∈ n.zones ↔ g.zone? z.name = some z
  groups : n.groups.map (·.zone) = n.zones.map (·.name)
  sorted : ∀ p ∈ n.groups, p.addresses.Pairwise (· < ·)
  addresses : ∀ p ∈ n.groups, ∀ a, a ∈ p.addresses ↔ (a, p.zone) ∈ g.members

theorem eq_of_map_eq {α β : Type} {f : α → β} {xs ys : List α} (h : xs.map f = ys.map f)
    (hf : ∀ x ∈ xs, ∀ y ∈ ys, f x = f y → x = y) : xs = ys := by
  induction xs generalizing ys with
  | nil => exact (List.map_eq_nil_iff.1 h.symm).symm
  | cons x xs ih =>
    cases ys with
    | nil => cases h
    | cons y ys =>
      obtain ⟨hx, hxs⟩ := List.cons.inj h
      rw [hf x List.mem_cons_self y List.mem_cons_self hx,
        ih hxs fun x hx y hy => hf x (List.mem_cons_of_mem _ hx) y (List.mem_cons_of_mem _ hy)]

/-- A state has one normal form at most. -/
theorem NormalForm.unique {g n n' : GenesisState} (h : NormalForm g n) (h' : NormalForm g n') : n = n' := by
  have hz : n.zones = n'.zones := by
    refine List.Pairwise.eq_of_mem_iff (r := fun z z' : Zone => z.name < z'.name) (List.pairwise_map.1 h.ascending)
      (List.pairwise_map.1 h'.ascending) fun z => ?_
    rw [h.zones, h'.zones]
  have hg : n.groups = n'.groups := by
    refine eq_of_map_eq (h.groups.trans (hz ▸ h'.groups.symm)) fun p hp q hq hpq => ?_
    have ha : p.addresses = q.addresses :=
      List.Pairwise.eq_of_mem_iff (h.sorted p hp) (h'.sorted q hq) fun a => by
        rw [h.addresses p hp, h'.addresses q hq, hpq]
    cases p; cases q; cases hpq; cases ha; rfl
  cases n; cases n'; cases hz; cases hg; rfl

end GenesisState

/-! ## What of a state from outside can be stored -/

/-- The group, if the name of its zone and every address in it have an encoded form. -/
def GroupDraft.group? (p : GroupDraft) : Option AddressGroup :=
  p.zone.plain?.bind fun n => (p.addresses.mapM Text.plain?).map fun xs => ⟨n, xs⟩

theorem Text.mapM_plain?_eq_some_iff {ts : List Text} {xs : List String} :
    ts.mapM Text.plain? = some xs ↔ ts = xs.map .plain := by
  induction ts generalizing xs with
  | nil => cases xs <;> simp
  | cons t ts ih => cases xs <;> simp [Option.bind_eq_some_iff, Text.plain?_eq_some_iff, ih]

theorem GroupDraft.group?_eq_some_iff {p : GroupDraft} {q : AddressGroup} : p.group? = some q ↔ p = q := by
  obtain ⟨zone, addresses⟩ := p
  obtain ⟨n, xs⟩ := q
  simp [group?, AddressGroup.draft, Option.bind_eq_some_iff, Text.plain?_eq_some_iff, Text.mapM_plain?_eq_some_iff]

theorem GroupDraft.exists_eq {p : GroupDraft} (hz : ∃ n : String, p.zone = n)
    (ha : ∀ t ∈ p.addresses, ∃ a : String, t = a) : ∃ q : AddressGroup, p = q := by
  obtain ⟨zone, addresses⟩ := p
  obtain ⟨n, rfl⟩ := hz
  obtain ⟨xs, rfl, -⟩ := Registry.exists_map_eq (P := fun _ : String => True) (f := Text.plain) fun t ht => by
    obtain ⟨a, ha⟩ := ha t ht
    exact ⟨a, trivial, ha.symm⟩
  exact ⟨⟨n, xs⟩, rfl⟩

namespace GenesisDraft

/-- The zones and the groups whose names and addresses have an encoded form. -/
def state (g : GenesisDraft) : GenesisState :=
  ⟨g.zones.filterMap ZoneDraft.zone?, g.groups.filterMap GroupDraft.group?⟩

theorem mem_zones_state {g : GenesisDraft} {z : Zone} : z ∈ g.state.zones ↔ (z : ZoneDraft) ∈ g.zones := by
  simp [state, ZoneDraft.zone?_eq_some_iff]

theorem mem_groups_state {g : GenesisDraft} {p : AddressGroup} : p ∈ g.state.groups ↔ (p : GroupDraft) ∈ g.groups := by
  simp [state, GroupDraft.group?_eq_some_iff]

/-- All that an import would store has an encoded form. A group without addresses is not stored. -/
structure Storable (g : GenesisDraft) : Prop where
  zones : ∀ d ∈ g.zones, ∃ z : Zone, d = z
  groups : ∀ d ∈ g.groups, d.addresses ≠ [] → ∃ p : AddressGroup, d = p

/-- What makes a state from outside fit into a registry of the zones `zs` and the memberships `ms`. -/
structure Importable (hrp : String) (zs : List Zone) (ms : List (String × String)) (g : GenesisDraft) : Prop where
  named : ∀ z ∈ g.zones, z.name ≠ ""
  /-- The name of a zone has an encoded form. -/
  encoded : ∀ z ∈ g.zones, ∃ n : String, z.name = n
  /-- A group that has addresses is that of a zone, an old or a new one. -/
  placed : ∀ p ∈ g.groups, p.addresses ≠ [] → (∃ z ∈ zs, p.zone = z.name) ∨ ∃ z ∈ g.zones, p.zone = z.name
  valid : ∀ p ∈ g.groups, ∀ a ∈ p.addresses, ∃ raw, Address.validate a hrp = .ok raw
  /-- No address is in groups of two zones. -/
  apart : ∀ p ∈ g.groups, ∀ q ∈ g.groups, ∀ a ∈ p.addresses, a ∈ q.addresses → p.zone = q.zone
  /-- No address is a member of another zone already. -/
  free : ∀ p ∈ g.groups, ∀ a ∈ p.addresses, ∀ m ∈ ms, a = m.1 → p.zone = m.2

section

variable {g : GenesisDraft} {hrp : String} {zs : List Zone} {ms : List (String × String)}

theorem Importable.storable (h : g.Importable hrp zs ms) : g.Storable where
  zones d hd := by
    obtain ⟨n, hn⟩ := h.encoded d hd
    obtain ⟨f, name⟩ := d
    cases hn
    exact ⟨⟨f, n⟩, rfl⟩
  groups d hd hne := by
    have hzone : ∃ n : String, d.zone = n := by
      rcases h.placed d hd hne with ⟨z, -, hz⟩ | ⟨z, hz, hn⟩
      · exact ⟨z.name, hz⟩
      · obtain ⟨n, hz⟩ := h.encoded z hz
        exact ⟨n, hn.trans hz⟩
    refine GroupDraft.exists_eq hzone fun t ht => ?_
    obtain ⟨raw, hv⟩ := h.valid d hd t ht
    exact Registry.eq_plain_of_validate hv

theorem importable_iff (h : g.Storable) : g.Importable hrp zs ms ↔ g.state.Fits hrp zs ms := by
  constructor
  · intro hi
    refine ⟨fun z hz hn => ?_, fun p hp hne => ?_, fun p hp a ha => ?_, fun p hp q hq a ha ha' => ?_,
      fun p hp a ha n hm => ?_⟩
    · exact hi.named z (mem_zones_state.1 hz) (congrArg Text.plain hn)
    · refine (hi.placed p (mem_groups_state.1 hp) (by simpa [AddressGroup.draft] using hne)).imp ?_ ?_
      · rintro ⟨z, hz, hn⟩
        exact List.mem_map.2 ⟨z, hz, (Text.plain.inj hn).symm⟩
      · rintro ⟨d, hd, hn⟩
        obtain ⟨z, rfl⟩ := h.zones d hd
        exact List.mem_map.2 ⟨z, mem_zones_state.2 hd, (Text.plain.inj hn).symm⟩
    · exact hi.valid p (mem_groups_state.1 hp) a (List.mem_map_of_mem ha)
    · exact Text.plain.inj (hi.apart p (mem_groups_state.1 hp) q (mem_groups_state.1 hq) a (List.mem_map_of_mem ha)
        (List.mem_map_of_mem ha'))
    · exact (Text.plain.inj (hi.free p (mem_groups_state.1 hp) a (List.mem_map_of_mem ha) (a, n) hm rfl)).symm
  · intro hf
    -- Only of a group that has addresses anything is asked, and such a group can be stored.
    have hgroup : ∀ d ∈ g.groups, ∀ t ∈ d.addresses, ∃ p ∈ g.state.groups, d = p ∧ ∃ a ∈ p.addresses, t = a :=
      fun d hd t ht => by
        obtain ⟨p, rfl⟩ := h.groups d hd (List.ne_nil_of_mem ht)
        obtain ⟨a, ha, rfl⟩ := List.mem_map.1 ht
        exact ⟨p, mem_groups_state.2 hd, rfl, a, ha, rfl⟩
    refine ⟨fun d hd hn => ?_, fun d hd => ?_, fun d hd hne => ?_, fun d hd t ht => ?_, fun d hd e he t ht ht' => ?_,
      fun d hd t ht m hm hn => ?_⟩
    · obtain ⟨z, rfl⟩ := h.zones d hd
      exact hf.named z (mem_zones_state.2 hd) (Text.plain.inj hn)
    · obtain ⟨z, rfl⟩ := h.zones d hd
      exact ⟨z.name, rfl⟩
    · obtain ⟨p, rfl⟩ := h.groups d hd hne
      refine (hf.placed p (mem_groups_state.2 hd) (by simpa [AddressGroup.draft] using hne)).imp ?_ ?_
      · intro hm
        obtain ⟨z, hz, hn⟩ := List.mem_map.1 hm
        exact ⟨z, hz, congrArg Text.plain hn.symm⟩
      · intro hm
        obtain ⟨z, hz, hn⟩ := List.mem_map.1 hm
        exact ⟨z, mem_zones_state.1 hz, congrArg Text.plain hn.symm⟩
    · obtain ⟨p, hp, -, a, ha, rfl⟩ := hgroup d hd t ht
      exact hf.valid p hp a ha
    · obtain ⟨p, hp, rfl, a, ha, rfl⟩ := hgroup d hd t ht
      obtain ⟨q, hq, rfl, b, hb, hab⟩ := hgroup e he a ht'
      cases hab
      exact congrArg Text.plain (hf.apart p hp q hq a ha hb)
    · obtain ⟨p, hp, rfl, a, ha, rfl⟩ := hgroup d hd t ht
      obtain rfl : a = m.1 := Text.plain.inj hn
      exact congrArg Text.plain (hf.free p hp m.1 ha m.2 hm).symm

end

end GenesisDraft

end ExemptZones
