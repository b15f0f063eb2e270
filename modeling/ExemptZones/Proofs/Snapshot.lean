import ExemptZones.Proofs.JsonText
import ExemptZones.Proofs.KeyOrder
import ExemptZones.Proofs.Soundness

/-
The registry as a genesis state, and back. A sound registry is made of a list of zones and a list of
memberships, each in order (`Holds`); its export is those two lists, and importing them writes exactly the
records they came from.

`Holds.run_exportState`: the export never fails and says what the records say.
`Holds.import_eq`: the import of an export meets no failure and restores every record.
-/

namespace ExemptZones.Registry

open ExemptZones.Action

-- The bytes of a zone's record play no part here, only that they read back.
attribute [local irreducible] Zone.encode

/-! ## What a sound registry is made of -/

/-- The records are those of the zones `zs` and of the memberships `ms`, each an address and the name of its
zone. -/
structure Holds (hrp : String) (r : Records) (zs : List Zone) (ms : List (String × String)) : Prop where
  zones : zoneView.contents r = zs.map fun z => (Utf8.encode z.name, z.encode)
  members : memberView.contents r = ms.map fun m => (Utf8.encode m.1, Utf8.encode m.2)
  /-- There are no other records. -/
  only : ∀ k v, r.get? k = some v → (∃ k', k = zoneView.key k') ∨ ∃ k', k = memberView.key k'
  named : ∀ z ∈ zs, z.name ≠ ""
  valid : ∀ m ∈ ms, ∃ raw, Address.validate m.1 hrp = .ok raw
  placed : ∀ m ∈ ms, m.2 ∈ zs.map (·.name)

section Sound

variable {hrp : String} {r : Records} {e : Record}

theorem Sound.exists_zone (h : Sound hrp r) (he : e ∈ zoneView.contents r) :
    ∃ z : Zone, z.name ≠ "" ∧ (Utf8.encode z.name, z.encode) = e := by
  obtain ⟨k, v⟩ := e
  rcases (h _ (Records.mem_entries_iff.2 (View.mem_contents.1 he))).eq with ⟨z, hz, hk, rfl⟩ | ⟨a, n, -, -, hk, -⟩
  · exact ⟨z, hz, by rw [View.key_injective hk]⟩
  · exact absurd hk (zoneView_key_ne_memberView_key _ _)

theorem Sound.exists_member (h : Sound hrp r) (he : e ∈ memberView.contents r) :
    ∃ m : String × String, ((∃ raw, Address.validate m.1 hrp = .ok raw) ∧ (r.get? (zoneKey m.2)).isSome) ∧
      (Utf8.encode m.1, Utf8.encode m.2) = e := by
  obtain ⟨k, v⟩ := e
  rcases (h _ (Records.mem_entries_iff.2 (View.mem_contents.1 he))).eq with ⟨z, -, hk, -⟩ | ⟨a, n, hv, hp, hk, rfl⟩
  · exact absurd hk.symm (zoneView_key_ne_memberView_key _ _)
  · exact ⟨(a, n), ⟨hv, hp⟩, by rw [View.key_injective hk]⟩

theorem exists_map_eq {α β : Type} {P : α → Prop} {f : α → β} {ys : List β} (h : ∀ y ∈ ys, ∃ x, P x ∧ f x = y) :
    ∃ xs : List α, ys = xs.map f ∧ ∀ x ∈ xs, P x := by
  induction ys with
  | nil => exact ⟨[], rfl, fun x hx => absurd hx List.not_mem_nil⟩
  | cons y ys ih =>
    obtain ⟨x, hx, rfl⟩ := h y List.mem_cons_self
    obtain ⟨xs, rfl, hxs⟩ := ih fun y hy => h y (List.mem_cons_of_mem _ hy)
    exact ⟨x :: xs, rfl, List.forall_mem_cons.2 ⟨hx, hxs⟩⟩

theorem Sound.holds (h : Sound hrp r) : ∃ zs ms, Holds hrp r zs ms := by
  obtain ⟨zs, hzs, hn⟩ := exists_map_eq fun _ => h.exists_zone
  obtain ⟨ms, hms, hv⟩ := exists_map_eq fun _ => h.exists_member
  refine ⟨zs, ms, hzs, hms, fun k v hk => ?_, hn, fun m hm => (hv m hm).1, fun m hm => ?_⟩
  · rcases (h _ (Records.mem_entries_iff.2 hk)).eq with ⟨z, -, rfl, -⟩ | ⟨a, n, -, -, rfl, -⟩
    · exact .inl ⟨_, rfl⟩
    · exact .inr ⟨_, rfl⟩
  · obtain ⟨b, hb⟩ := Option.isSome_iff_exists.1 (hv m hm).2
    have hmem : (Utf8.encode m.2, b) ∈ zoneView.contents r := View.mem_contents.2 hb
    rw [hzs] at hmem
    obtain ⟨z, hz, he⟩ := List.mem_map.1 hmem
    exact List.mem_map.2 ⟨z, hz, Utf8.encode_injective (congrArg Prod.fst he)⟩

end Sound

namespace Holds

variable {hrp : String} {r : Records} {zs : List Zone} {ms : List (String × String)}

/-- Each record is that of one of the zones or of one of the memberships. -/
theorem eq_of_get? (h : Holds hrp r zs ms) {k v : Bytes} (hk : r.get? k = some v) :
    (∃ z ∈ zs, zoneKey z.name = k ∧ z.encode = v) ∨ ∃ m ∈ ms, memberKey m.1 = k ∧ Utf8.encode m.2 = v := by
  rcases h.only k v hk with ⟨k', rfl⟩ | ⟨k', rfl⟩
  · have hm := View.mem_contents.2 hk
    rw [h.zones] at hm
    obtain ⟨z, hz, he⟩ := List.mem_map.1 hm
    exact .inl ⟨z, hz, congrArg zoneView.key (congrArg Prod.fst he), congrArg Prod.snd he⟩
  · have hm := View.mem_contents.2 hk
    rw [h.members] at hm
    obtain ⟨m, hm, he⟩ := List.mem_map.1 hm
    exact .inr ⟨m, hm, congrArg memberView.key (congrArg Prod.fst he), congrArg Prod.snd he⟩

theorem get?_zone (h : Holds hrp r zs ms) {z : Zone} (hz : z ∈ zs) : r.get? (zoneKey z.name) = some z.encode := by
  refine View.mem_contents.1 ?_
  rw [h.zones]
  exact List.mem_map.2 ⟨z, hz, rfl⟩

theorem get?_member (h : Holds hrp r zs ms) {m : String × String} (hm : m ∈ ms) :
    r.get? (memberKey m.1) = some (Utf8.encode m.2) := by
  refine View.mem_contents.1 ?_
  rw [h.members]
  exact List.mem_map.2 ⟨m, hm, rfl⟩

/-- The zones are in the order of their names. -/
theorem ascending_names (h : Holds hrp r zs ms) : (zs.map (·.name)).Pairwise (· < ·) := by
  have ha := zoneView.ascending_contents r
  rw [h.zones, Ascending, List.pairwise_map] at ha
  exact List.pairwise_map.2 (ha.imp fun hlt => Utf8.encode_lt_encode_iff.1 hlt)

/-- The memberships are in the order of the addresses. -/
theorem ascending_addresses (h : Holds hrp r zs ms) : ms.Pairwise fun m m' => m.1 < m'.1 := by
  have ha := memberView.ascending_contents r
  rw [h.members, Ascending, List.pairwise_map] at ha
  exact ha.imp fun hlt => Utf8.encode_lt_encode_iff.1 hlt

end Holds

/-! ## Export -/

/-- The genesis state of zones and memberships: one group for each zone. -/
def snapshot (zs : List Zone) (ms : List (String × String)) : GenesisState :=
  ⟨zs, (zs.map (·.name)).map (groupOf ms)⟩

/-- A name that comes after all others goes to the end. -/
theorem insertName_of_lt {n : String} {ns : List String} (h : ∀ m ∈ ns, m < n) : insertName n ns = ns ++ [n] := by
  induction ns with
  | nil => rfl
  | cons m ms ih =>
    have hm : m < n := h m List.mem_cons_self
    have hne : n ≠ m := fun he => String.lt_irrefl n (he ▸ hm)
    rw [insertName, if_neg (String.lt_asymm hm), if_neg hne, ih fun x hx => h x (List.mem_cons_of_mem _ hx)]
    rfl

/-- Names in order are listed as they are. -/
theorem foldl_insertName (zs : List Zone) (ns : List String) (h : (ns ++ zs.map (·.name)).Pairwise (· < ·)) :
    zs.foldl (fun ns z => insertName z.name ns) ns = ns ++ zs.map (·.name) := by
  induction zs generalizing ns with
  | nil => simp
  | cons z zs ih =>
    have hlt : ∀ m ∈ ns, m < z.name := fun m hm => (List.pairwise_append.1 h).2.2 m hm z.name (by simp)
    rw [List.foldl_cons, insertName_of_lt hlt, ih _ (by simpa using h)]
    simp

theorem run_registeredMembers (names : List String) (s : Session) {ms : List (String × String)}
    (h : ∀ m ∈ ms, m.2 ∈ names) :
    (registeredMembers names (ms.map fun m => (Utf8.encode m.1, Utf8.encode m.2))).run s = (.ok ms, s) := by
  induction ms with
  | nil => rfl
  | cons m ms ih =>
    have hm : names.contains m.2 = true := List.contains_iff_mem.2 (h m List.mem_cons_self)
    have hi := ih fun m' hm' => h m' (List.mem_cons_of_mem _ hm')
    rw [List.map_cons, registeredMembers]
    simp only [decodeText, Utf8.decode?_encode, run_bind, run_pure, hm, if_true, hi]

theorem validateAddresses_eq_ok {hrp : String} {xs : List Text}
    (h : ∀ a ∈ xs, ∃ raw, Address.validate a hrp = .ok raw) : GenesisDraft.validateAddresses hrp xs = .ok () := by
  induction xs with
  | nil => rfl
  | cons a xs ih =>
    obtain ⟨raw, ha⟩ := h a List.mem_cons_self
    rw [GenesisDraft.validateAddresses, ha]
    exact ih fun b hb => h b (List.mem_cons_of_mem _ hb)

theorem validateGroups_eq_ok {names : List Text} {hrp : String} {gs : List GroupDraft}
    (hn : ∀ g ∈ gs, g.zone ∈ names) (hv : ∀ g ∈ gs, ∀ a ∈ g.addresses, ∃ raw, Address.validate a hrp = .ok raw) :
    GenesisDraft.validateGroups names hrp gs = .ok () := by
  induction gs with
  | nil => rfl
  | cons g gs ih =>
    have hg : names.contains g.zone = true := List.contains_iff_mem.2 (hn g List.mem_cons_self)
    have hi := ih (fun x hx => hn x (List.mem_cons_of_mem _ hx)) fun x hx => hv x (List.mem_cons_of_mem _ hx)
    rw [GenesisDraft.validateGroups, hg, validateAddresses_eq_ok (hv g List.mem_cons_self), hi]
    rfl

namespace Holds

variable {hrp : String} {r : Records} {zs : List Zone} {ms : List (String × String)}

theorem mem_addresses {g : AddressGroup} {a : String} (hg : g ∈ (snapshot zs ms).groups) :
    a ∈ g.addresses ↔ (a, g.zone) ∈ ms := by
  obtain ⟨n, -, rfl⟩ := List.mem_map.1 hg
  simp [groupOf]

theorem validate_snapshot (h : Holds hrp r zs ms) : GenesisDraft.validate (snapshot zs ms) hrp = .ok () := by
  let g : GenesisDraft := snapshot zs ms
  have hg : GenesisDraft.validateGroups (g.zones.map (·.name)) hrp g.groups = .ok () := by
    refine validateGroups_eq_ok (fun d hd => ?_) fun d hd a ha => ?_
    all_goals obtain ⟨p, hp, rfl⟩ := List.mem_map.1 hd
    · obtain ⟨n, hn, rfl⟩ := List.mem_map.1 hp
      obtain ⟨z, hz, rfl⟩ := List.mem_map.1 hn
      exact List.mem_map.2 ⟨z, List.mem_map_of_mem hz, rfl⟩
    · obtain ⟨b, hb, rfl⟩ := List.mem_map.1 ha
      exact h.valid _ ((mem_addresses hp).1 hb)
  have hl : g.zones.length = g.groups.length := by simp [g, snapshot, GenesisState.draft]
  rw [GenesisDraft.validate, if_neg (not_not.2 hl)]
  exact hg

theorem groups_zone (zs : List Zone) (ms : List (String × String)) :
    (snapshot zs ms).groups.map (·.zone) = (snapshot zs ms).zones.map (·.name) := by
  simp [snapshot, groupOf, Function.comp_def]

theorem ascending_group (h : Holds hrp r zs ms) {g : AddressGroup} (hg : g ∈ (snapshot zs ms).groups) :
    g.addresses.Pairwise (· < ·) := by
  obtain ⟨n, -, rfl⟩ := List.mem_map.1 hg
  exact List.pairwise_map.2 (h.ascending_addresses.filter _)

theorem run_zones (h : Holds hrp r zs ms) {s : Session} (hs : s.store.link = .live) (hr : s.records = r) :
    Registry.zones.run s = (.ok zs, s) := by
  have hd : (zs.mapM fun z => decodeZone z.encode).run s = (.ok (zs.map id), s) :=
    run_mapM fun z _ => by rw [decodeZone, Zone.decode_encode]; rfl
  rw [List.map_id] at hd
  simp only [Registry.zones, run_bind, zoneView.run_scan hs, hr, h.zones, List.mapM_map, Function.comp_def, hd]

/-- **The export says what the records say**, without a failure and without a note of anything skipped. -/
theorem run_exportState {cfg : Settings} {s : Session} (hs : s.store.link = .live)
    (h : Holds cfg.addressPrefix s.records zs ms) : (exportState cfg).run s = (.ok (snapshot zs ms), s) := by
  have hn : zs.foldl (fun ns z => insertName z.name ns) [] = zs.map (·.name) :=
    foldl_insertName zs [] h.ascending_names
  have hm := run_registeredMembers (zs.map (·.name)) s h.placed
  rw [← h.members] at hm
  have hv : GenesisDraft.validate (⟨zs, (zs.map (·.name)).map (groupOf ms)⟩ : GenesisState) cfg.addressPrefix =
      .ok () :=
    h.validate_snapshot
  simp only [exportState, run_bind, h.run_zones hs rfl, hn, memberView.run_scan hs, hm, hv, run_pure]
  rfl

end Holds

/-! ## Import -/

/-- All of the first records are among the second. -/
def Within (r r' : Records) : Prop :=
  ∀ k v, r.get? k = some v → r'.get? k = some v

theorem Within.refl (r : Records) : Within r r := fun _ _ h => h

theorem Within.trans {r r' r'' : Records} (h : Within r r') (h' : Within r' r'') : Within r r'' :=
  fun k v hk => h' k v (h k v hk)

theorem Within.antisymm {r r' : Records} (h : Within r r') (h' : Within r' r) : r = r' := by
  refine Records.eq_of_get? fun k => ?_
  cases hk : r.get? k with
  | some v => exact (h k v hk).symm
  | none =>
    cases hk' : r'.get? k with
    | none => rfl
    | some v => exact absurd (h' k v hk') (by simp [hk])

/-- A record of `r` put to a part of `r` gives a part of `r`. -/
theorem Within.insert {r r₀ : Records} {k v : Bytes} (h : Within r₀ r) (hk : r.get? k = some v) :
    Within r₀ (r₀.insert k v) ∧ Within (r₀.insert k v) r := by
  refine ⟨fun k' v' hk' => ?_, fun k' v' hk' => ?_⟩
  · rw [Records.get?_insert]
    split
    · rename_i he
      rw [← he] at hk'
      exact hk.symm.trans (h k v' hk')
    · exact hk'
  · rw [Records.get?_insert] at hk'
    split at hk'
    · rename_i he
      rw [← he, hk, hk']
    · exact h k' v' hk'

/-- In a part `r₀` of `r` the edit succeeds, and adds to it the record `e` of `r`, if it is not there yet. -/
def Restores (cfg : Settings) (r r₀ : Records) (edit : Edit) (e : Record) : Prop :=
  ∃ r₁ es, edit.plan cfg r₀ = .ok (r₁, es) ∧ Within r₀ r₁ ∧ Within r₁ r ∧ r₁.get? e.1 = some e.2

theorem restores_zone {cfg : Settings} {r r₀ : Records} {z : Zone} (h : Within r₀ r) (hn : z.name ≠ "")
    (hz : r.get? (zoneKey z.name) = some z.encode) :
    Restores cfg r r₀ (.addZone z) (zoneKey z.name, z.encode) := by
  have hw := h.insert hz
  refine ⟨_, _, by rw [Edit.plan, if_neg (by simpa using hn), ZoneDraft.zone?_coe], hw.1, hw.2, ?_⟩
  rw [Records.get?_insert, if_pos rfl]

theorem restores_member {cfg : Settings} {r r₀ : Records} {address zone : String} (h : Within r₀ r)
    (hz : registered r₀ zone = true) (hv : ∃ raw, Address.validate address cfg.addressPrefix = .ok raw)
    (hm : r.get? (memberKey address) = some (Utf8.encode zone)) :
    Restores cfg r r₀ (.addAddress zone address) (memberKey address, Utf8.encode zone) := by
  obtain ⟨raw, hv⟩ := hv
  have hne : address.isEmpty = false := isEmpty_of_validate hv
  cases hb : r₀.get? (memberKey address) with
  | none =>
    have hw := h.insert hm
    refine ⟨_, [.addedAddress address zone], ?_, hw.1, hw.2, by rw [Records.get?_insert, if_pos rfl]⟩
    simp only [Edit.plan, hz, if_true, hv, membership, hne, hb]
    rfl
  | some b =>
    have he : b = Utf8.encode zone := Option.some.inj ((h _ b hb).symm.trans hm)
    subst he
    refine ⟨r₀, [], ?_, .refl r₀, h, hb⟩
    simp [Edit.plan, hz, hv, membership, hne, hb, Utf8.decode?_encode]

/-- Edits that restore records of `r` do so one after the other, from any part of `r` that has what they need
(`base`). None fails. -/
theorem batch_restores {α : Type} {cfg : Settings} {r : Records} (base : Records) (edit : α → Edit)
    (record : α → Record) (xs : List α) (rest : List Edit)
    (h : ∀ x ∈ xs, ∀ r₀, Within base r₀ → Within r₀ r → Restores cfg r r₀ (edit x) (record x))
    {r₀ : Records} (hb : Within base r₀) (h₀ : Within r₀ r) :
    ∃ r₁, Edit.batch cfg (xs.map edit ++ rest) r₀ = Edit.batch cfg rest r₁ ∧ Within r₀ r₁ ∧ Within r₁ r ∧
      ∀ x ∈ xs, r₁.get? (record x).1 = some (record x).2 := by
  induction xs generalizing r₀ with
  | nil => exact ⟨r₀, rfl, .refl r₀, h₀, fun x hx => absurd hx List.not_mem_nil⟩
  | cons x xs ih =>
    obtain ⟨r₁, es, hp, h₀₁, h₁, hx⟩ := h x List.mem_cons_self r₀ hb h₀
    obtain ⟨r₂, hrun, h₁₂, h₂, hxs⟩ := ih (fun y hy => h y (List.mem_cons_of_mem _ hy)) (hb.trans h₀₁) h₁
    refine ⟨r₂, ?_, h₀₁.trans h₁₂, h₂, List.forall_mem_cons.2 ⟨h₁₂ _ _ hx, hxs⟩⟩
    rw [List.map_cons, List.cons_append, Edit.batch_cons_ok hp]
    exact hrun

/-- The memberships zone by zone. -/
def grouped (zs : List Zone) (ms : List (String × String)) : List (String × String) :=
  (zs.map (·.name)).flatMap fun n => ms.filter fun m => m.2 = n

theorem edits_snapshot (zs : List Zone) (ms : List (String × String)) :
    Change.edits (.importState (snapshot zs ms)) =
      zs.map (fun z : Zone => .addZone z) ++ ((grouped zs ms).map (fun m => .addAddress m.2 m.1) ++ []) := by
  have hg : ∀ n, (groupOf ms n).draft.addresses.map (Edit.addAddress n) =
      (ms.filter fun m => m.2 = n).map fun m => .addAddress m.2 m.1 := fun n => by
    rw [groupOf, AddressGroup.draft, List.map_map, List.map_map]
    refine List.map_congr_left fun m hm => ?_
    have he : m.2 = n := of_decide_eq_true (List.mem_filter.1 hm).2
    rw [Function.comp_apply, Function.comp_apply, he]
  simp only [List.append_nil, grouped, List.map_flatMap, Change.edits, snapshot, GenesisState.draft, List.flatMap_map,
    List.map_map, ← hg]
  rfl

namespace Holds

variable {hrp : String} {r : Records} {zs : List Zone} {ms : List (String × String)}

theorem mem_grouped (h : Holds hrp r zs ms) {m : String × String} : m ∈ grouped zs ms ↔ m ∈ ms := by
  simp only [grouped, List.mem_flatMap, List.mem_filter, decide_eq_true_eq]
  exact ⟨fun ⟨_, _, hm, _⟩ => hm, fun hm => ⟨m.2, h.placed m hm, hm, rfl⟩⟩

/-- **The import of an export restores every record.** First the zones are there again, and then each address
is free to be put into its own. -/
theorem import_eq {cfg : Settings} (h : Holds cfg.addressPrefix r zs ms) :
    Change.result cfg (.importState (snapshot zs ms)) .empty = (.ok (), r) := by
  have hempty : Within .empty r := fun k v hk => nomatch hk
  obtain ⟨r₁, hrun₁, -, h₁, hz⟩ := batch_restores .empty (fun z : Zone => .addZone z)
    (fun z => (zoneKey z.name, z.encode)) zs ((grouped zs ms).map (fun m => .addAddress m.2 m.1) ++ [])
    (fun z hz r₀ _ h₀ => restores_zone h₀ (h.named z hz) (h.get?_zone hz)) (.refl _) hempty
  have hreg : ∀ r₀, Within r₁ r₀ → ∀ m ∈ ms, registered r₀ m.2 = true := fun r₀ hb m hm => by
    obtain ⟨z, hzm, hn⟩ := List.mem_map.1 (h.placed m hm)
    have hne : m.2.isEmpty = false := by
      rw [← hn, ← Bool.not_eq_true, String.isEmpty_iff]
      exact h.named z hzm
    rw [registered, hne, ← hn, hb _ _ (hz z hzm)]
    rfl
  obtain ⟨r₂, hrun₂, h₁₂, h₂, hm⟩ := batch_restores r₁ (fun m => .addAddress m.2 m.1)
    (fun m => (memberKey m.1, Utf8.encode m.2)) (grouped zs ms) []
    (fun m hm r₀ hb h₀ => by
      have hm := h.mem_grouped.1 hm
      exact restores_member h₀ (hreg r₀ hb m hm) (h.valid m hm) (h.get?_member hm)) (.refl _) h₁
  have hback : Within r r₂ := fun k v hk => by
    rcases h.eq_of_get? hk with ⟨z, hzm, rfl, rfl⟩ | ⟨m, hmm, rfl, rfl⟩
    · exact h₁₂ _ _ (hz z hzm)
    · exact hm m (h.mem_grouped.2 hmm)
  have hr : r₂ = r := h₂.antisymm hback
  show Edit.batch cfg (Change.edits (.importState (snapshot zs ms))) .empty = (.ok (), r)
  rw [edits_snapshot, hrun₁, hrun₂, hr]
  rfl

end Holds

/-- **A backup loses nothing.** The export of a reachable registry succeeds and validates; it lists the zones
in the order of their names, a group for each, and the addresses of each group in order. Imported into an
empty store it gives the same records again, and these the same export. -/
theorem export_restores (cfg : Settings) (s : Session) (h : Reachable cfg s) :
    ∃ g, (exportState cfg).run s = (.ok g, s) ∧ GenesisDraft.validate g cfg.addressPrefix = .ok () ∧
      (g.zones.map (·.name)).Pairwise (· < ·) ∧ g.groups.map (·.zone) = g.zones.map (·.name) ∧
      (∀ p ∈ g.groups, p.addresses.Pairwise (· < ·)) ∧
      ∀ authority, ∃ t, (importState { cfg with authority } g).run start = (.ok (), t) ∧ t.records = s.records ∧
        t.store.committed = s.records ∧ (exportState { cfg with authority }).run t = (.ok g, t) := by
  obtain ⟨zs, ms, hh⟩ := h.upholds.working.holds
  refine ⟨snapshot zs ms, hh.run_exportState h.upholds.live, hh.validate_snapshot, hh.ascending_names,
    Holds.groups_zone zs ms, fun p hp => hh.ascending_group hp, fun authority => ?_⟩
  have hh' : Holds { cfg with authority }.addressPrefix s.records zs ms := hh
  have hs : start.Ready := ⟨rfl, fun _ => rfl⟩
  obtain ⟨es, he⟩ := Change.does { cfg with authority } hs (.importState (snapshot zs ms))
  rw [show start.records = Records.empty from rfl, hh'.import_eq] at he
  rw [Session.write_of_closed rfl] at he
  exact ⟨_, he, rfl, rfl, Holds.run_exportState rfl hh'⟩

/-- Zones that were not given in order come out in order, and the member with its zone. -/
theorem export_restores_import :
    let t := ((importState {} ⟨[⟨{}, "b"⟩, ⟨{}, "a"⟩], [⟨"b", ["terra1qypqx0kxuu8"]⟩]⟩).run start).2
    let g : GenesisState := ⟨[⟨{}, "a"⟩, ⟨{}, "b"⟩], [⟨"a", []⟩, ⟨"b", ["terra1qypqx0kxuu8"]⟩]⟩
    (exportState {}).run t = (.ok g, t) ∧
      ∃ u, (importState {} g).run start = (.ok (), u) ∧ u.records = t.records := by
  intro t g
  have hr : Reachable {} t := ⟨.step (.importState _), List.mem_cons_of_mem _ List.mem_cons_self⟩
  obtain ⟨g', he, -, -, -, -, hi⟩ := export_restores {} t hr
  have hg : ((exportState {}).run t).1.toOption = some g := by decide +kernel
  rw [he] at hg
  obtain rfl : g' = g := Option.some.inj hg
  obtain ⟨u, hu, hur, -, -⟩ := hi ""
  exact ⟨he, u, hu, hur⟩

end ExemptZones.Registry
