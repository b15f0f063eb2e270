import ExemptZones.Proofs.GenesisFit

/-
Which genesis states a registry takes in, and what it holds afterwards.

`Holds.import_iff`: an import succeeds if its zones are named and each membership fits the zones and the
other memberships; then it has written one record after the other.
`Holds.import_draft_iff`: in a state from outside the names of the zones must have an encoded form as well.
`Holds.mem_zones_of_import`, `Holds.mem_members_of_import`: of the entries of one name the last is kept, and of the
memberships every one.
`Holds.normalForm_snapshot`: an import into an empty store is exported in normal form.
-/

namespace ExemptZones

namespace Registry

open ExemptZones.Action

-- Of the bytes of a zone's record it matters only that they tell zones apart.
attribute [local irreducible] Zone.encode

/-! ## The edits of an import -/

section Edits

variable {cfg : Settings} {r r' : Records}

theorem Edit.batch_cons_eq_ok_iff {e : Edit} {es : List Edit} :
    batch cfg (e :: es) r = (.ok (), r') ↔ ∃ p, e.plan cfg r = .ok p ∧ batch cfg es p.1 = (.ok (), r') := by
  cases h : e.plan cfg r with
  | error f => simp [batch_cons_error h]
  | ok p => simp [batch_cons_ok h]

theorem Edit.batch_append_eq_ok_iff {es fs : List Edit} :
    batch cfg (es ++ fs) r = (.ok (), r') ↔ ∃ r₁, batch cfg es r = (.ok (), r₁) ∧ batch cfg fs r₁ = (.ok (), r') := by
  induction es generalizing r with
  | nil => simp [batch]
  | cons e es ih =>
    simp only [List.cons_append, batch_cons_eq_ok_iff, ih]
    constructor
    · rintro ⟨p, hp, r₁, h₁, h₂⟩
      exact ⟨r₁, ⟨p, hp, h₁⟩, h₂⟩
    · rintro ⟨r₁, ⟨p, hp, h₁⟩, h₂⟩
      exact ⟨p, hp, r₁, h₁, h₂⟩

/-- The record of a zone. -/
def zoneRecord (z : Zone) : Record :=
  (zoneKey z.name, z.encode)

/-- The record of a membership. -/
def memberRecord (m : String × String) : Record :=
  (memberKey m.1, Utf8.encode m.2)

theorem Edit.batch_addZones_iff {zs : List Zone} :
    batch cfg (zs.map fun z : Zone => .addZone z) r = (.ok (), r') ↔
      (∀ z ∈ zs, z.name ≠ "") ∧ r' = r.insertAll zoneRecord zs := by
  induction zs generalizing r with
  | nil => exact ⟨fun h => ⟨nofun, by cases h; rfl⟩, fun h => by rw [h.2]; rfl⟩
  | cons z zs ih =>
    rw [List.map_cons, batch_cons_eq_ok_iff]
    by_cases hn : z.name = ""
    · simp [plan, hn]
    · simp only [plan, Zone.name_draft, Text.isEmpty_plain, String.isEmpty_iff, hn, if_false, ZoneDraft.zone?_coe,
        Except.ok.injEq, exists_eq_left', ih, List.forall_mem_cons]
      simp [hn, Records.insertAll, zoneRecord]

/-- A membership can be added: its zone is there, its address is one and is in no other zone. -/
structure Admits (hrp : String) (r : Records) (m : String × String) : Prop where
  registered : registered r m.2 = true
  valid : ∃ raw, Address.validate m.1 hrp = .ok raw
  free : ∀ b, r.get? (memberKey m.1) = some b → b = Utf8.encode m.2

theorem Edit.plan_addAddress_eq_ok_iff {m : String × String} :
    (∃ es, (addAddress m.2 m.1).plan cfg r = .ok (r', es)) ↔
      Admits cfg.addressPrefix r m ∧ r' = r.insert (memberRecord m).1 (memberRecord m).2 := by
  obtain ⟨a, n⟩ := m
  by_cases hz : Registry.registered r n = true
  · cases hv : Address.validate a cfg.addressPrefix with
    | error fault =>
      have hno : ¬ Admits cfg.addressPrefix r (a, n) := fun h => by
        obtain ⟨raw, h⟩ := h.valid
        simp [hv] at h
      simp [plan, hz, hv, hno]
    | ok raw =>
      have hne := isEmpty_of_validate hv
      cases hb : r.get? (memberKey a) with
      | none =>
        have hyes : Admits cfg.addressPrefix r (a, n) := ⟨hz, ⟨raw, hv⟩, fun b h => by simp [hb] at h⟩
        simp [plan, hz, hv, membership, hne, hb, hyes, memberRecord, eq_comm]
      | some b =>
        have hadm : Admits cfg.addressPrefix r (a, n) ↔ b = Utf8.encode n :=
          ⟨fun h => h.free b hb, fun h => ⟨hz, ⟨raw, hv⟩, fun b' h' => by rw [hb] at h'; cases h'; exact h⟩⟩
        cases hd : Utf8.decode? b with
        | none =>
          have hne' : b ≠ Utf8.encode n := fun h => by simp [h, Utf8.decode?_encode] at hd
          simp [plan, hz, hv, membership, hne, hb, hd, hadm, hne']
        | some current =>
          obtain rfl := Utf8.decode?_eq_some_iff.1 hd
          by_cases hc : current = n
          · subst hc
            simp [plan, hz, hv, membership, hne, hb, hd, hadm, memberRecord, Records.insert_of_get? hb, eq_comm]
          · have hne' : Utf8.encode current ≠ Utf8.encode n := fun h => hc (Utf8.encode_injective h)
            simp [plan, hz, hv, membership, hne, hb, hd, hadm, hc, hne']
  · have hno : ¬ Admits cfg.addressPrefix r (a, n) := fun h => hz h.registered
    simp [plan, hz, hno]

theorem get?_insert_member_zoneKey (m : String × String) (name : String) :
    (r.insert (memberRecord m).1 (memberRecord m).2).get? (zoneKey name) = r.get? (zoneKey name) := by
  have hne : (memberRecord m).1 ≠ zoneKey name := (zoneView_key_ne_memberView_key _ _).symm
  rw [Records.get?_insert, if_neg hne]

theorem memberKey_inj {a b : String} : memberKey a = memberKey b ↔ a = b :=
  ⟨fun h => Utf8.encode_injective (View.key_injective h), fun h => h ▸ rfl⟩

theorem memberKey_mem_map {xs : List String} {a : String} : memberKey a ∈ xs.map memberKey ↔ a ∈ xs := by
  simp [memberKey_inj]

/-- Many addresses into one zone: which of them comes first does not matter. -/
theorem get?_insertAll_members (r : Records) (zone : String) (xs : List String) (k : Bytes) :
    (r.insertAll memberRecord (xs.map fun a => (a, zone))).get? k =
      if k ∈ xs.map memberKey then some (Utf8.encode zone) else r.get? k := by
  induction xs generalizing r with
  | nil => rfl
  | cons a xs ih =>
    have hcons : r.insertAll memberRecord ((a :: xs).map fun a => (a, zone)) =
        (r.insert (memberKey a) (Utf8.encode zone)).insertAll memberRecord (xs.map fun a => (a, zone)) := rfl
    rw [hcons, ih, Records.get?_insert, List.map_cons]
    by_cases hk : memberKey a = k
    · simp [hk]
    · simp [hk, Ne.symm hk]

/-- After one membership another can be added if it could be before, unless it puts the same address elsewhere. -/
theorem Admits.insert_iff {hrp : String} {m m' : String × String} (h : Admits hrp r m) :
    Admits hrp (r.insert (memberRecord m).1 (memberRecord m).2) m' ↔ Admits hrp r m' ∧ (m.1 = m'.1 → m.2 = m'.2) := by
  have hreg : Registry.registered (r.insert (memberRecord m).1 (memberRecord m).2) m'.2 =
      Registry.registered r m'.2 := by
    rw [Registry.registered, get?_insert_member_zoneKey]; rfl
  have hget : (r.insert (memberRecord m).1 (memberRecord m).2).get? (memberKey m'.1) =
      if m.1 = m'.1 then some (Utf8.encode m.2) else r.get? (memberKey m'.1) := by
    rw [Records.get?_insert]; simp only [memberRecord, memberKey_inj]
  constructor
  · rintro ⟨hz, hv, hf⟩
    rw [hreg] at hz
    rw [hget] at hf
    by_cases ha : m.1 = m'.1
    · rw [if_pos ha] at hf
      have hn : m.2 = m'.2 := Utf8.encode_injective (hf _ rfl)
      exact ⟨⟨hz, hv, fun b hb => by rw [← ha] at hb; rw [h.free b hb, hn]⟩, fun _ => hn⟩
    · rw [if_neg ha] at hf
      exact ⟨⟨hz, hv, hf⟩, fun he => absurd he ha⟩
  · rintro ⟨⟨hz, hv, hf⟩, hn⟩
    refine ⟨hreg ▸ hz, hv, fun b hb => ?_⟩
    rw [hget] at hb
    split at hb
    · rename_i ha
      rw [← Option.some.inj hb, hn ha]
    · exact hf b hb

/-- Memberships are added one after the other if each could be added by itself and no address is put into two
zones. -/
theorem Edit.batch_addAddresses_iff {ms : List (String × String)} :
    batch cfg (ms.map fun m => .addAddress m.2 m.1) r = (.ok (), r') ↔
      (∀ m ∈ ms, Admits cfg.addressPrefix r m) ∧ (∀ m ∈ ms, ∀ m' ∈ ms, m.1 = m'.1 → m.2 = m'.2) ∧
        r' = r.insertAll memberRecord ms := by
  induction ms generalizing r with
  | nil => exact ⟨fun h => ⟨nofun, nofun, by cases h; rfl⟩, fun h => by rw [h.2.2]; rfl⟩
  | cons m ms ih =>
    rw [List.map_cons, batch_cons_eq_ok_iff]
    constructor
    · rintro ⟨⟨r₁, es⟩, hp, hb⟩
      obtain ⟨hm, rfl⟩ := plan_addAddress_eq_ok_iff.1 ⟨es, hp⟩
      obtain ⟨hall, hsame, rfl⟩ := ih.1 hb
      have hms : ∀ m' ∈ ms, Admits cfg.addressPrefix r m' ∧ (m.1 = m'.1 → m.2 = m'.2) := fun m' hm' =>
        hm.insert_iff.1 (hall m' hm')
      refine ⟨List.forall_mem_cons.2 ⟨hm, fun m' hm' => (hms m' hm').1⟩, ?_, rfl⟩
      simp only [List.forall_mem_cons]
      exact ⟨⟨fun _ => trivial, fun m' hm' => (hms m' hm').2⟩,
        fun m' hm' => ⟨fun he => ((hms m' hm').2 he.symm).symm, hsame m' hm'⟩⟩
    · rintro ⟨hall, hsame, rfl⟩
      obtain ⟨hm, hms⟩ := List.forall_mem_cons.1 hall
      obtain ⟨es, hp⟩ := plan_addAddress_eq_ok_iff.2 ⟨hm, rfl⟩
      refine ⟨_, hp, ih.2 ⟨fun m' hm' => ?_, fun m' hm' m'' hm'' => ?_, rfl⟩⟩
      · exact hm.insert_iff.2 ⟨hms m' hm', hsame m List.mem_cons_self m' (List.mem_cons_of_mem _ hm')⟩
      · exact hsame m' (List.mem_cons_of_mem _ hm') m'' (List.mem_cons_of_mem _ hm'')

theorem edits_importState (g : GenesisState) :
    Change.edits (.importState g) =
      (g.zones.map fun z : Zone => .addZone z) ++ g.members.map fun m => .addAddress m.2 m.1 := by
  simp only [Change.edits, GenesisState.draft, AddressGroup.draft, GenesisState.members, List.map_flatMap,
    List.flatMap_map, List.map_map, Function.comp_def]

/-- An edit that is part of a batch which goes through makes something of some records. -/
theorem Edit.exists_makes_of_batch {es : List Edit} (h : batch cfg es r = (.ok (), r')) :
    ∀ e ∈ es, ∃ r r', e.Makes cfg.addressPrefix r r' := by
  induction es generalizing r with
  | nil => exact nofun
  | cons e es ih =>
    obtain ⟨p, hp, hb⟩ := batch_cons_eq_ok_iff.1 h
    exact List.forall_mem_cons.2 ⟨⟨r, p.1, makes_of_plan hp⟩, ih hb⟩

theorem Edit.Makes.plain_of_addAddress {hrp : String} {zone address : Text}
    (h : (Edit.addAddress zone address).Makes hrp r r') : ∃ n a : String, zone = n ∧ address = a := by
  cases h with
  | addAddress | keepAddress => exact ⟨_, _, rfl, rfl⟩

/-- What was imported had an encoded form. -/
theorem storable_of_import {g : GenesisDraft} (h : Change.result cfg (.importState g) r = (.ok (), r')) :
    g.Storable := by
  have hedits : ∀ e ∈ Change.edits (.importState g), ∃ r r', e.Makes cfg.addressPrefix r r' :=
    Edit.exists_makes_of_batch h
  refine ⟨fun d hd => ?_, fun d hd hne => ?_⟩
  · obtain ⟨_, _, hm⟩ := hedits (.addZone d) (List.mem_append_left _ (List.mem_map_of_mem hd))
    cases hm with
    | addZone named => exact ⟨_, rfl⟩
  · have hadd : ∀ t ∈ d.addresses, ∃ n a : String, d.zone = n ∧ t = a := fun t ht => by
      obtain ⟨_, _, hm⟩ := hedits (.addAddress d.zone t)
        (List.mem_append_right _ (List.mem_flatMap.2 ⟨d, hd, List.mem_map_of_mem ht⟩))
      exact hm.plain_of_addAddress
    obtain ⟨t, ht⟩ := List.exists_mem_of_ne_nil _ hne
    obtain ⟨n, -, hn, -⟩ := hadd t ht
    refine GroupDraft.exists_eq ⟨n, hn⟩ fun t ht => ?_
    obtain ⟨-, a, -, ha⟩ := hadd t ht
    exact ⟨a, ha⟩

/-- The groups that cannot be stored have no addresses, so that nothing is done about them. -/
theorem edits_state {g : GenesisDraft} (h : g.Storable) :
    Change.edits (.importState g.state) = Change.edits (.importState g) := by
  obtain ⟨zones, groups⟩ := g
  obtain ⟨hzones, hgroups⟩ := h
  refine congrArg₂ (· ++ ·) ?_ ?_
  · have hmap : (zones.filterMap ZoneDraft.zone?).map Zone.draft = zones := by
      obtain ⟨zs, rfl, -⟩ := exists_map_eq (P := fun _ : Zone => True) (f := Zone.draft) fun d hd => by
        obtain ⟨z, hz⟩ := hzones d hd
        exact ⟨z, trivial, hz.symm⟩
      rw [List.filterMap_map, show ZoneDraft.zone? ∘ Zone.draft = some from rfl, List.filterMap_some]
    exact congrArg (List.map Edit.addZone) hmap
  · show ((groups.filterMap GroupDraft.group?).map AddressGroup.draft).flatMap _ = groups.flatMap _
    clear hzones
    induction groups with
    | nil => rfl
    | cons d groups ih =>
      obtain ⟨hd, hrest⟩ := List.forall_mem_cons.1 hgroups
      cases hp : d.group? with
      | none =>
        have hnil : d.addresses = [] := by
          by_contra hne
          obtain ⟨p, hdp⟩ := hd hne
          exact nomatch (GroupDraft.group?_eq_some_iff.2 hdp).symm.trans hp
        rw [List.filterMap_cons_none hp, List.flatMap_cons, hnil, List.map_nil, List.nil_append]
        exact ih hrest
      | some p =>
        obtain rfl := GroupDraft.group?_eq_some_iff.1 hp
        rw [List.filterMap_cons_some hp, List.map_cons, List.flatMap_cons, List.flatMap_cons, ih hrest]

end Edits

/-! ## What fits into a registry -/

namespace Holds

variable {hrp : String} {r : Records} {zs : List Zone} {ms : List (String × String)}

theorem mem_zones_iff (h : Holds hrp r zs ms) {z : Zone} : z ∈ zs ↔ r.get? (zoneKey z.name) = some z.encode := by
  refine ⟨h.get?_zone, fun hz => ?_⟩
  rcases h.eq_of_get? hz with ⟨z', hz', -, he⟩ | ⟨m, -, hk, -⟩
  · rwa [← Zone.encode_injective he]
  · exact absurd hk.symm (zoneView_key_ne_memberView_key _ _)

theorem mem_members_iff (h : Holds hrp r zs ms) {m : String × String} :
    m ∈ ms ↔ r.get? (memberKey m.1) = some (Utf8.encode m.2) := by
  refine ⟨h.get?_member, fun hm => ?_⟩
  rcases h.eq_of_get? hm with ⟨z, -, hk, -⟩ | ⟨m', hm', hk, he⟩
  · exact absurd hk (zoneView_key_ne_memberView_key _ _)
  · have hp : m' = m := Prod.ext (memberKey_inj.1 hk) (Utf8.encode_injective he)
    rwa [← hp]

/-- What is found under the key of a zone after zones were written. -/
theorem get?_insertAll_zoneKey (r : Records) (new : List Zone) (name : String) :
    (r.insertAll zoneRecord new).get? (zoneKey name) =
      ((new.reverse.find? fun z => z.name = name).map Zone.encode).or (r.get? (zoneKey name)) := by
  simp only [Records.get?_insertAll, zoneRecord, zoneKey_inj]

theorem get?_insertAll_memberKey (r : Records) (new : List (String × String)) (address : String) :
    (r.insertAll memberRecord new).get? (memberKey address) =
      ((new.reverse.find? fun m => m.1 = address).map fun m => Utf8.encode m.2).or (r.get? (memberKey address)) := by
  simp only [Records.get?_insertAll, memberRecord, memberKey_inj]

theorem get?_zones_memberKey (r : Records) (new : List Zone) (address : String) :
    (r.insertAll zoneRecord new).get? (memberKey address) = r.get? (memberKey address) :=
  Records.get?_insertAll_of_forall_ne _ (fun _ _ => zoneView_key_ne_memberView_key _ _) r

theorem get?_members_zoneKey (r : Records) (new : List (String × String)) (name : String) :
    (r.insertAll memberRecord new).get? (zoneKey name) = r.get? (zoneKey name) :=
  Records.get?_insertAll_of_forall_ne _ (fun _ _ => (zoneView_key_ne_memberView_key _ _).symm) r

theorem isSome_get?_zoneKey_iff (h : Holds hrp r zs ms) {name : String} :
    (r.get? (zoneKey name)).isSome = true ↔ name ∈ zs.map (·.name) := by
  constructor
  · intro hs
    obtain ⟨b, hb⟩ := Option.isSome_iff_exists.1 hs
    rcases h.eq_of_get? hb with ⟨z, hz, hk, -⟩ | ⟨m, -, hk, -⟩
    · exact List.mem_map.2 ⟨z, hz, zoneKey_inj.1 hk⟩
    · exact absurd hk.symm (zoneView_key_ne_memberView_key _ _)
  · intro hn
    obtain ⟨z, hz, rfl⟩ := List.mem_map.1 hn
    rw [h.get?_zone hz]
    rfl

/-- The registered zones after new ones were written: the old and the new. -/
theorem registered_insertAll_iff (h : Holds hrp r zs ms) {g : GenesisState} (hn : ∀ z ∈ g.zones, z.name ≠ "")
    (name : String) : registered (r.insertAll zoneRecord g.zones) name = true ↔
      name ∈ zs.map (·.name) ∨ name ∈ g.zones.map (·.name) := by
  have hnew : (g.zone? name).isSome = true ↔ name ∈ g.zones.map (·.name) := by
    rw [Option.isSome_iff_ne_none, ne_eq, GenesisState.zone?_eq_none_iff, not_not]
  have hsome : ((r.insertAll zoneRecord g.zones).get? (zoneKey name)).isSome = true ↔
      name ∈ zs.map (·.name) ∨ name ∈ g.zones.map (·.name) := by
    rw [get?_insertAll_zoneKey, ← h.isSome_get?_zoneKey_iff, ← hnew, GenesisState.zone?, or_comm]
    simp
  rw [registered, Bool.and_eq_true, hsome, and_iff_right_of_imp]
  rintro (hm | hm)
  · obtain ⟨z, hz, rfl⟩ := List.mem_map.1 hm
    simpa using h.named z hz
  · obtain ⟨z, hz, rfl⟩ := List.mem_map.1 hm
    simpa using hn z hz

/-- A membership can be added to a registry unless its address is in another zone. -/
theorem admits_iff (h : Holds hrp r zs ms) {g : GenesisState} (hn : ∀ z ∈ g.zones, z.name ≠ "")
    {m : String × String} : Admits hrp (r.insertAll zoneRecord g.zones) m ↔
      (m.2 ∈ zs.map (·.name) ∨ m.2 ∈ g.zones.map (·.name)) ∧ (∃ raw, Address.validate m.1 hrp = .ok raw) ∧
        ∀ n, (m.1, n) ∈ ms → n = m.2 := by
  constructor
  · rintro ⟨hz, hv, hf⟩
    refine ⟨(h.registered_insertAll_iff hn _).1 hz, hv, fun n hm => ?_⟩
    exact Utf8.encode_injective (hf _ ((get?_zones_memberKey r _ _).trans (h.get?_member hm)))
  · rintro ⟨hz, hv, hf⟩
    refine ⟨(h.registered_insertAll_iff hn _).2 hz, hv, fun b hb => ?_⟩
    rw [get?_zones_memberKey] at hb
    rcases h.eq_of_get? hb with ⟨z, -, hk, -⟩ | ⟨m', hm', hk, rfl⟩
    · exact absurd hk (zoneView_key_ne_memberView_key _ _)
    · rw [← hf m'.2 (memberKey_inj.1 hk ▸ hm')]

/-- **Which states can be imported**, and what their import writes. -/
theorem import_iff {cfg : Settings} (h : Holds cfg.addressPrefix r zs ms) (g : GenesisState) (r' : Records) :
    Change.result cfg (.importState g) r = (.ok (), r') ↔
      g.Fits cfg.addressPrefix zs ms ∧
        r' = (r.insertAll zoneRecord g.zones).insertAll memberRecord g.members := by
  show Edit.batch cfg (Change.edits (.importState g)) r = (.ok (), r') ↔ _
  rw [edits_importState, Edit.batch_append_eq_ok_iff]
  simp only [Edit.batch_addZones_iff, Edit.batch_addAddresses_iff]
  constructor
  · rintro ⟨r₁, ⟨hn, rfl⟩, hall, hsame, rfl⟩
    have hadm : ∀ p ∈ g.groups, ∀ a ∈ p.addresses, _ := fun p hp a ha =>
      (h.admits_iff hn).1 (GenesisState.forall_mem_members.1 hall p hp a ha)
    refine ⟨⟨hn, fun p hp hne => ?_, fun p hp a ha => (hadm p hp a ha).2.1, fun p hp q hq a ha ha' => ?_,
      fun p hp a ha => (hadm p hp a ha).2.2⟩, rfl⟩
    · obtain ⟨a, ha⟩ := List.exists_mem_of_ne_nil _ hne
      exact (hadm p hp a ha).1
    · exact hsame (a, p.zone) (GenesisState.mem_members.2 ⟨p, hp, ha, rfl⟩) (a, q.zone)
        (GenesisState.mem_members.2 ⟨q, hq, ha', rfl⟩) rfl
  · rintro ⟨hi, rfl⟩
    refine ⟨_, ⟨hi.named, rfl⟩, GenesisState.forall_mem_members.2 fun p hp a ha => ?_, ?_, rfl⟩
    · exact (h.admits_iff hi.named).2
        ⟨hi.placed p hp (List.ne_nil_of_mem ha), hi.valid p hp a ha, hi.free p hp a ha⟩
    · refine GenesisState.forall_mem_members.2 fun p hp a ha => GenesisState.forall_mem_members.2 fun q hq b hb => ?_
      rintro rfl
      exact hi.apart p hp q hq a ha hb

/-- The same of a state from outside: a name of a zone without an encoded form makes the import fail. -/
theorem import_draft_iff {cfg : Settings} (h : Holds cfg.addressPrefix r zs ms) (g : GenesisDraft) (r' : Records) :
    Change.result cfg (.importState g) r = (.ok (), r') ↔
      g.Importable cfg.addressPrefix zs ms ∧
        r' = (r.insertAll zoneRecord g.state.zones).insertAll memberRecord g.state.members := by
  by_cases hs : g.Storable
  · rw [GenesisDraft.importable_iff hs, ← h.import_iff]
    show Edit.batch cfg (Change.edits (.importState g)) r = _ ↔
      Edit.batch cfg (Change.edits (.importState g.state)) r = _
    rw [edits_state hs]
  · exact iff_of_false (fun hr => hs (storable_of_import hr)) fun hi => hs hi.1.storable

/-! ## What an import leaves -/

section Imported

variable {g : GenesisState} {zs' : List Zone} {ms' : List (String × String)}

/-- The zones after an import: the last entries of the state, and of the others those that were there. -/
theorem mem_zones_of_import (h : Holds hrp r zs ms)
    (h' : Holds hrp ((r.insertAll zoneRecord g.zones).insertAll memberRecord g.members) zs' ms') (z : Zone) :
    z ∈ zs' ↔ g.zone? z.name = some z ∨ g.zone? z.name = none ∧ z ∈ zs := by
  rw [h'.mem_zones_iff, get?_members_zoneKey, get?_insertAll_zoneKey, ← GenesisState.zone?, h.mem_zones_iff]
  cases g.zone? z.name with
  | none => simp
  | some z' => simpa using ⟨fun he => Zone.encode_injective he, fun he => he ▸ rfl⟩

/-- The memberships after an import: those of the state and those that were there. -/
theorem mem_members_of_import (h : Holds hrp r zs ms) (hi : g.Fits hrp zs ms)
    (h' : Holds hrp ((r.insertAll zoneRecord g.zones).insertAll memberRecord g.members) zs' ms')
    (m : String × String) : m ∈ ms' ↔ m ∈ ms ∨ m ∈ g.members := by
  rw [h'.mem_members_iff, get?_insertAll_memberKey, get?_zones_memberKey]
  cases hf : g.members.reverse.find? fun m' => m'.1 = m.1 with
  | none =>
    have hno : m ∉ g.members := fun hm => by
      simpa using List.find?_eq_none.1 hf m (List.mem_reverse.2 hm)
    simp [h.mem_members_iff, hno]
  | some m' =>
    have hm' : m' ∈ g.members := List.mem_reverse.1 (List.mem_of_find?_eq_some hf)
    have ha : m'.1 = m.1 := by simpa using List.find?_some hf
    obtain ⟨p, hp, hpa, hpz⟩ := GenesisState.mem_members.1 hm'
    rw [Option.map_some, Option.some_or, Option.some.injEq]
    constructor
    · intro he
      have hz : m'.2 = m.2 := Utf8.encode_injective he
      exact .inr (Prod.ext ha hz ▸ hm')
    · -- The address stands in one zone only, be it there already or listed a second time.
      rintro (hm | hm)
      · rw [hi.free p hp m'.1 hpa m.2 (ha ▸ hm), hpz]
      · obtain ⟨q, hq, hqa, hqz⟩ := GenesisState.mem_members.1 hm
        rw [← hpz, ← hqz, hi.apart p hp q hq m'.1 hpa (ha ▸ hqa)]

/-- What was imported into an empty store is exported in normal form. -/
theorem normalForm_snapshot (hempty : Holds hrp r [] []) (hi : g.Fits hrp [] [])
    (h' : Holds hrp ((r.insertAll zoneRecord g.zones).insertAll memberRecord g.members) zs' ms') :
    g.NormalForm (snapshot zs' ms') where
  ascending := h'.ascending_names
  zones z := by
    rw [show (snapshot zs' ms').zones = zs' from rfl, hempty.mem_zones_of_import h']
    simp
  groups := groups_zone zs' ms'
  sorted _ hp := h'.ascending_group hp
  addresses p hp a := by
    rw [mem_addresses hp, hempty.mem_members_of_import hi h']
    simp

end Imported

/-- Records are made of one list of zones and one of memberships. -/
theorem unique (h : Holds hrp r zs ms) {zs' : List Zone} {ms' : List (String × String)} (h' : Holds hrp r zs' ms') :
    zs = zs' ∧ ms = ms' := by
  constructor
  · refine (List.map_inj_right fun z z' he => ?_).1 (h.zones.symm.trans h'.zones)
    exact Zone.encode_injective (congrArg Prod.snd he)
  · refine (List.map_inj_right fun m m' he => ?_).1 (h.members.symm.trans h'.members)
    exact Prod.ext (Utf8.encode_injective (congrArg Prod.fst he)) (Utf8.encode_injective (congrArg Prod.snd he))

theorem empty (hrp : String) : Holds hrp .empty [] [] where
  zones := rfl
  members := rfl
  only _ _ h := nomatch h
  named := nofun
  valid := nofun
  placed := nofun

end Holds

/-! ## Imports into a reachable registry -/

end Registry

end ExemptZones
