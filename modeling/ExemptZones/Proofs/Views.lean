import Mathlib.Data.List.Sort
import ExemptZones.Proofs.Browsing
import ExemptZones.Proofs.Import

/-
The views of a registry. Its zones can be scanned, listed and exported, and its memberships scanned, listed zone by
zone or all at once, exported in groups, and looked up one by one. In a sound registry, which is made of a list of
zones and a list of memberships (`Holds`), each of these answers with a part of those two lists.

`Holds.run_listAddresses`: a listing of members is the part of the memberships it asks for.
`Holds.run_zoneNameOf_iff`: a look-up finds a zone exactly if the membership is there.
`Holds.merged_groups`: the groups of an export make up all memberships again.
-/

namespace ExemptZones.Registry

open ExemptZones.Action

-- The bytes of a zone's record play no part here, only that they read back.
attribute [local irreducible] Zone.encode

/-! ## Listings without a request -/

/-- Without a request a page holds every match, and no page follows. -/
theorem run_paginate_none (v : View) (wanted : Record → Bool) {s : Session} (hs : s.store.link = .live) :
    ∃ walk, (paginate v none wanted).run s = (.ok (walk, {}), s) ∧
      walk.collected wanted = (v.contents s.records).filter wanted := by
  have hall : PageRequest.candidates {} (v.contents s.records) = v.contents s.records := by
    simp [PageRequest.candidates, PageRequest.admits, Store.ordered]
  have hp := isPage_run {} wanted (PageRequest.pairwise_candidates {} (v.ascending_contents s.records))
  have hnext := hp.next
  have hrun := run_paginate v (show (none : Option PageRequest).getD {} = {} from rfl) wanted hs
  rw [hall] at hp hnext hrun
  simp only [if_true] at hnext
  simp only [hnext] at hrun
  exact ⟨_, hrun, hp.collected⟩

namespace Holds

variable {hrp : String} {s : Session} {zs : List Zone} {ms : List (String × String)}

theorem run_listZones (hs : s.store.link = .live) (h : Holds hrp s.records zs ms) :
    (listZones none).run s = (.ok (zs, {}), s) := by
  obtain ⟨walk, hrun, hw⟩ := run_paginate_none zoneView (fun _ => true) hs
  have hread : (zs.mapM fun z => decodeZone z.encode).run s = (.ok (zs.map id), s) :=
    run_mapM fun z _ => by rw [decodeZone, z.decode_encode]; rfl
  rw [List.map_id] at hread
  rw [List.filter_true, h.zones] at hw
  simp only [listZones, run_bind, hrun, hw, List.mapM_map, Function.comp_def, hread, run_pure]

theorem run_memberships (hs : s.store.link = .live) (h : Holds hrp s.records zs ms) :
    memberships.run s = (.ok ms, s) := by
  have hread : (ms.mapM fun m : String × String => do
      return (← decodeText (Utf8.encode m.1), ← decodeText (Utf8.encode m.2))).run s = (.ok (ms.map id), s) :=
    run_mapM fun m _ => by simp [decodeText, Utf8.decode?_encode]
  rw [List.map_id] at hread
  simp only [memberships, run_bind, memberView.run_scan hs, h.members, List.mapM_map]
  exact hread

/-- A listing of members holds the addresses whose zone was asked for; without a name that is all of them. -/
theorem run_listAddresses (hs : s.store.link = .live) (h : Holds hrp s.records zs ms) (zone : String) :
    (listAddresses zone none).run s =
      (.ok ((ms.filter fun m => zone.isEmpty || m.2 = zone).map (·.1), {}), s) := by
  obtain ⟨walk, hrun, hw⟩ :=
    run_paginate_none memberView (fun e => zone.isEmpty || e.2 = Utf8.encode zone) hs
  have hinj : ∀ m : String × String, Utf8.encode m.2 = Utf8.encode zone ↔ m.2 = zone := fun m =>
    ⟨fun he => Utf8.encode_injective he, fun he => he ▸ rfl⟩
  rw [h.members, List.filter_map, Function.comp_def] at hw
  simp only [hinj] at hw
  have hread : ((ms.filter fun m => zone.isEmpty || m.2 = zone).mapM fun m => decodeText (Utf8.encode m.1)).run s =
      (.ok ((ms.filter fun m => zone.isEmpty || m.2 = zone).map (·.1)), s) :=
    run_mapM fun m _ => by rw [decodeText, Utf8.decode?_encode, run_pure]
  simp only [listAddresses, encodable_plain, pure_bind, run_bind, hrun, hw, List.mapM_map, Function.comp_def, hread,
    run_pure]

/-! ## Looking things up -/

theorem run_hasZone (hs : s.store.link = .live) (h : Holds hrp s.records zs ms) (n : String) :
    (hasZone n).run s = (.ok (decide (n ∈ zs.map (·.name))), s) := by
  have hreg : registered s.records n = decide (n ∈ zs.map (·.name)) := by
    rw [Bool.eq_iff_iff, decide_eq_true_iff, ← h.isSome_get?_zoneKey_iff, registered, Bool.and_eq_true]
    refine and_iff_right_of_imp fun hn => ?_
    obtain ⟨z, hz, rfl⟩ := List.mem_map.1 (h.isSome_get?_zoneKey_iff.1 hn)
    simpa using h.named z hz
  rw [Registry.run_hasZone hs, hreg]

/-- A look-up always answers, and finds the zone of which the party's address is a member. -/
theorem run_zoneNameOf_iff (hs : s.store.link = .live) (h : Holds hrp s.records zs ms) (q : Party) :
    ∃ o, (zoneNameOf q).run s = (.ok o, s) ∧ ∀ n, o = some n ↔ ∃ a, (a, n) ∈ ms ∧ q = .named a := by
  cases q with
  | unspecified | unencodable => exact ⟨none, rfl, by simp⟩
  | named address =>
    simp only [run_zoneNameOf hs, membership, Party.named.injEq, exists_eq_right', h.mem_members_iff]
    cases he : address.isEmpty with
    | true =>
      -- No membership has the empty address.
      refine ⟨none, rfl, fun n => ⟨fun h => absurd h (Option.some_ne_none n).symm, fun hn => ?_⟩⟩
      obtain ⟨raw, hv⟩ := h.valid (address, n) (h.mem_members_iff.2 hn)
      exact absurd (isEmpty_of_validate hv) (by simp [he])
    | false =>
      cases hb : s.records.get? (memberKey address) with
      | none => exact ⟨none, rfl, fun n => by simp⟩
      | some b =>
        rcases h.eq_of_get? hb with ⟨z, -, hk, -⟩ | ⟨m, -, -, rfl⟩
        · exact absurd hk (zoneView_key_ne_memberView_key _ _)
        · refine ⟨some m.2, by simp [Utf8.decode?_encode], fun n => ?_⟩
          simp only [Option.some.injEq]
          exact ⟨fun hn => hn ▸ rfl, fun hn => Utf8.encode_injective hn⟩

/-! ## Groups -/

/-- No address is in two zones. -/
theorem eq_of_mem_members (h : Holds hrp s.records zs ms) {a n n' : String} (hn : (a, n) ∈ ms)
    (hn' : (a, n') ∈ ms) : n = n' := by
  rw [h.mem_members_iff] at hn hn'
  exact Utf8.encode_injective (Option.some.inj (hn.symm.trans hn'))

theorem disjoint_groups (h : Holds hrp s.records zs ms) :
    (snapshot zs ms).groups.Pairwise fun p q => p.addresses.Disjoint q.addresses := by
  have hne : (snapshot zs ms).groups.Pairwise fun p q => p.zone ≠ q.zone := by
    have hnames : ((snapshot zs ms).groups.map (·.zone)).Pairwise (· ≠ ·) := by
      rw [groups_zone]
      exact h.ascending_names.imp String.ne_of_lt
    exact List.pairwise_map.1 hnames
  refine hne.imp_of_mem fun hp hq hne a ha ha' => hne ?_
  exact h.eq_of_mem_members ((mem_addresses hp).1 ha) ((mem_addresses hq).1 ha')

end Holds

/-- The addresses of groups merged into one list, in their order. -/
def merged (gs : List AddressGroup) : List String :=
  gs.foldr (fun g xs => g.addresses.merge xs fun a b => a ≤ b) []

theorem merged_perm (gs : List AddressGroup) : (merged gs).Perm (gs.flatMap (·.addresses)) := by
  induction gs with
  | nil => rfl
  | cons g gs ih =>
    rw [List.flatMap_cons]
    exact (List.merge_perm_append _).trans (ih.append_left _)

theorem pairwise_merged {gs : List AddressGroup} (h : ∀ g ∈ gs, g.addresses.Pairwise (· ≤ ·)) :
    (merged gs).Pairwise (· ≤ ·) := by
  induction gs with
  | nil => exact .nil
  | cons g gs ih =>
    exact (h g List.mem_cons_self).merge (ih fun g' hg' => h g' (List.mem_cons_of_mem _ hg'))

namespace Holds

variable {hrp : String} {s : Session} {zs : List Zone} {ms : List (String × String)}

/-- The groups hold each membership once. -/
theorem flatMap_groups_perm (h : Holds hrp s.records zs ms) :
    ((snapshot zs ms).groups.flatMap (·.addresses)).Perm (ms.map (·.1)) := by
  have hgroups : ((snapshot zs ms).groups.flatMap (·.addresses)).Nodup :=
    List.nodup_flatMap.2 ⟨fun p hp => (h.ascending_group hp).imp String.ne_of_lt, h.disjoint_groups⟩
  have hall : (ms.map (·.1)).Nodup := List.pairwise_map.2 (h.ascending_addresses.imp String.ne_of_lt)
  refine (List.perm_ext_iff_of_nodup hgroups hall).2 fun a => ?_
  constructor
  · intro ha
    obtain ⟨p, hp, ha⟩ := List.mem_flatMap.1 ha
    exact List.mem_map.2 ⟨_, (mem_addresses hp).1 ha, rfl⟩
  · intro ha
    obtain ⟨m, hm, rfl⟩ := List.mem_map.1 ha
    have hp : groupOf ms m.2 ∈ (snapshot zs ms).groups := List.mem_map_of_mem (h.placed m hm)
    exact List.mem_flatMap.2 ⟨_, hp, (mem_addresses hp).2 hm⟩

theorem merged_groups (h : Holds hrp s.records zs ms) : merged (snapshot zs ms).groups = ms.map (·.1) := by
  have hgroups : ∀ p ∈ (snapshot zs ms).groups, p.addresses.Pairwise (· ≤ ·) := fun p hp =>
    (h.ascending_group hp).imp Std.le_of_lt
  have hall : (ms.map (·.1)).Pairwise (· ≤ ·) := List.pairwise_map.2 (h.ascending_addresses.imp Std.le_of_lt)
  exact ((merged_perm _).trans h.flatMap_groups_perm).eq_of_pairwise' (pairwise_merged hgroups) hall

end Holds

/-! ## All views at once -/

/-- Whichever way a session is asked for the members of a zone, it shows the addresses of the group. -/
structure ShowsGroup (s : Session) (ms : List (String × String)) (p : AddressGroup) : Prop where
  listed : (listAddresses p.zone none).run s = (.ok (p.addresses, {}), s)
  scanned : (ms.filter fun m => m.2 = p.zone).map (·.1) = p.addresses
  ascending : p.addresses.Pairwise (· < ·)
  lookedUp : ∀ q, (zoneNameOf q).run s = (.ok (some p.zone), s) ↔ ∃ a ∈ p.addresses, q = .named a

theorem Holds.showsGroup {hrp : String} {s : Session} {zs : List Zone} {ms : List (String × String)}
    (hs : s.store.link = .live) (h : Holds hrp s.records zs ms) {p : AddressGroup}
    (hp : p ∈ (snapshot zs ms).groups) : ShowsGroup s ms p := by
  refine ⟨?_, ?_, h.ascending_group hp, fun q => ?_⟩
  · obtain ⟨n, hn, rfl⟩ := List.mem_map.1 hp
    obtain ⟨z, hz, rfl⟩ := List.mem_map.1 hn
    have hne : z.name.isEmpty = false := by simpa using h.named z hz
    show (listAddresses z.name none).run s = (.ok ((groupOf ms z.name).addresses, {}), s)
    simp only [h.run_listAddresses hs, groupOf, hne, Bool.false_or]
  · obtain ⟨n, -, rfl⟩ := List.mem_map.1 hp
    rfl
  · obtain ⟨o, hrun, ho⟩ := h.run_zoneNameOf_iff hs q
    rw [hrun, Prod.mk.injEq, Except.ok.injEq, and_iff_left rfl, ho]
    simp only [mem_addresses hp]

/-- **All views of a registry agree.** The scan of the zones, their listing and the export show the same zones, and
a zone is there exactly if it is among them. For each zone the listing of its members, its group in the export, its
part of the scan of the memberships and the look-ups of single parties show the same addresses, in order. No
address is in two groups; merged, they are the listing of all members. The name of no zone has members, and a text
that cannot be stored is not looked for at all. -/
theorem views_agree (cfg : Settings) (s : Session) (h : Reachable cfg s) :
    ∃ zs ms gs,
      Registry.zones.run s = (.ok zs, s) ∧ (listZones none).run s = (.ok (zs, {}), s) ∧
      (exportState cfg).run s = (.ok ⟨zs, gs⟩, s) ∧ memberships.run s = (.ok ms, s) ∧
      (∀ n : String, (hasZone n).run s = (.ok (decide (n ∈ zs.map (·.name))), s)) ∧
      gs.map (·.zone) = zs.map (·.name) ∧ (zs.map (·.name)).Pairwise (· < ·) ∧
      (∀ p ∈ gs, ShowsGroup s ms p) ∧ (∀ q, ∃ o, (zoneNameOf q).run s = (.ok o, s)) ∧
      gs.Pairwise (fun p q => p.addresses.Disjoint q.addresses) ∧
      (listAddresses "" none).run s = (.ok (merged gs, {}), s) ∧
      (∀ w : String, w ≠ "" → w ∉ zs.map (·.name) → (listAddresses w none).run s = (.ok ([], {}), s)) ∧
      ∀ b, (listAddresses (.broken b) none).run s = (.error .unencodable, s) := by
  have hs := h.upholds.live
  obtain ⟨zs, ms, hh⟩ := h.upholds.working.holds
  refine ⟨zs, ms, (snapshot zs ms).groups, hh.run_zones hs rfl, hh.run_listZones hs, hh.run_exportState hs,
    hh.run_memberships hs, hh.run_hasZone hs, Holds.groups_zone zs ms, hh.ascending_names,
    fun p hp => hh.showsGroup hs hp, fun q => ?_, hh.disjoint_groups, ?_, fun w hne hw => ?_, fun b => rfl⟩
  · obtain ⟨o, hrun, -⟩ := hh.run_zoneNameOf_iff hs q
    exact ⟨o, hrun⟩
  · have hall : (ms.filter fun m => "".isEmpty || m.2 = "") = ms := List.filter_eq_self.2 fun _ _ => rfl
    rw [hh.run_listAddresses hs, hh.merged_groups, hall]
  · have hnone : (ms.filter fun m => w.isEmpty || m.2 = w) = [] := by
      refine List.filter_eq_nil_iff.2 fun m hm => ?_
      have hmw : m.2 ≠ w := fun he => hw (he ▸ hh.placed m hm)
      simp [hne, hmw]
    rw [hh.run_listAddresses hs, hnone]
    rfl

/-- Two zones whose members come in turn: merged, they are in the order of the addresses. -/
theorem views_agree_interleaved :
    let a := ["terra1qg5kk8l9", "terra1qslr6n5t"]
    let b := ["terra1qq2zjtpc"]
    let t := ((importState {} ⟨[⟨{}, "b"⟩, ⟨{}, "a"⟩], [⟨"b", b.map .plain⟩, ⟨"a", a.map .plain⟩]⟩).run start).2
    (exportState {}).run t = (.ok ⟨[⟨{}, "a"⟩, ⟨{}, "b"⟩], [⟨"a", a⟩, ⟨"b", b⟩]⟩, t) ∧
      (listAddresses "b" none).run t = (.ok (b, {}), t) ∧
      (listAddresses "" none).run t = (.ok (["terra1qg5kk8l9", "terra1qq2zjtpc", "terra1qslr6n5t"], {}), t) := by
  intro a b t
  have hr : Reachable {} t := ⟨.step (.importState _), List.mem_cons_of_mem _ List.mem_cons_self⟩
  obtain ⟨zs, ms, gs, -, -, he, -, -, -, -, hgroups, -, -, hall, -⟩ := views_agree {} t hr
  have hg : ((exportState {}).run t).1.toOption = some ⟨[⟨{}, "a"⟩, ⟨{}, "b"⟩], [⟨"a", a⟩, ⟨"b", b⟩]⟩ := by
    decide +kernel
  rw [he] at hg
  cases Option.some.inj hg
  have hm : merged [⟨"a", a⟩, ⟨"b", b⟩] = ["terra1qg5kk8l9", "terra1qq2zjtpc", "terra1qslr6n5t"] := by
    simp [merged, a, b]
  rw [hm] at hall
  exact ⟨he, (hgroups ⟨"b", b⟩ (by simp)).listed, hall⟩

/-- No zone has a broken name, and still there is no empty listing of its members. -/
theorem views_disagree_unencodable :
    let w : Text := .broken ⟨[.half 0xD800], rfl⟩
    Reachable {} start ∧ w.isEmpty = false ∧ (∀ n : String, w ≠ n) ∧
      (listAddresses w none).run start ≠ (.ok ([], {}), start) := by
  intro w
  refine ⟨⟨.done, List.mem_singleton.2 rfl⟩, rfl, nofun, fun h => ?_⟩
  cases congrArg Prod.fst h

end ExemptZones.Registry
