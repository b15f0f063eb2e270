import ExemptZones.Proofs.Batches
import ExemptZones.Proofs.Views

/-
What the removal of a zone takes away: the zone's own record and every membership in it, however many there are and
wherever they stand among the memberships of other zones. Names are compared as a whole, so that a zone whose name
begins like the one removed is not touched.

`size_dropZone`: the members that a removal counts are the records that are missing afterwards, besides the zone's.
`removal_cascades`: what is left, and what can be done with the former members.
-/

namespace ExemptZones

/-! ## How many records -/

namespace Records

theorem length_eraseFrom {k : Bytes} {es : List Record} (hs : Ascending es) (h : (lookUp k es).isSome) :
    (eraseFrom k es).length + 1 = es.length := by
  induction es with
  | nil => cases h
  | cons e es ih =>
    replace hs := List.pairwise_cons.1 hs
    by_cases he : e.1 = k
    · -- No other record has the key of the first.
      have hrest : eraseFrom k es = es :=
        List.filter_eq_self.2 fun x hx => by simpa using fun hxk => Bytes.ne_of_lt (hs.1 x hx) (he.trans hxk.symm)
      have hcons : eraseFrom k (e :: es) = eraseFrom k es := by simp [eraseFrom, he]
      rw [hcons, hrest, List.length_cons]
    · have hcons : eraseFrom k (e :: es) = e :: eraseFrom k es := by simp [eraseFrom, he]
      have hi := ih hs.2 (by simpa [lookUp, he] using h)
      rw [hcons, List.length_cons, List.length_cons, hi]

theorem size_erase {r : Records} {k : Bytes} (h : (r.get? k).isSome) : (r.erase k).size + 1 = r.size :=
  length_eraseFrom r.ascending h

/-- Different keys that are there are erased one by one. -/
theorem size_foldl_erase {r : Records} {ks : List Bytes} (hn : ks.Nodup) (h : ∀ k ∈ ks, (r.get? k).isSome) :
    (ks.foldl erase r).size + ks.length = r.size := by
  induction ks generalizing r with
  | nil => rfl
  | cons k ks ih =>
    obtain ⟨hk, hks⟩ := List.forall_mem_cons.1 h
    obtain ⟨hout, hn⟩ := List.nodup_cons.1 hn
    have hi := ih (r := r.erase k) hn fun k' hk' => by
      have hne : k ≠ k' := fun he => hout (he ▸ hk')
      rw [get?_erase, if_neg hne]
      exact hks k' hk'
    have he := size_erase hk
    rw [List.foldl_cons, List.length_cons]
    omega

end Records

namespace Registry

open ExemptZones.Action

-- The bytes of a zone's record play no part here, only that they read back.
attribute [local irreducible] Zone.encode

/-! ## What a removal leaves -/

section Records

variable {r : Records} {name : String}

theorem concerns_iff {k v : Bytes} :
    concerns name (k, v) = true ↔ k = zoneKey name ∨ ∃ a, k = memberView.key a ∧ v = Utf8.encode name := by
  simp only [concerns, Bool.or_eq_true, Bool.and_eq_true, decide_eq_true_eq, View.isPrefixOf_iff, exists_and_right]

theorem get?_dropZone_iff {k v : Bytes} :
    (dropZone name r).get? k = some v ↔ r.get? k = some v ∧ concerns name (k, v) = false := by
  rw [dropZone, Records.get?_keep_eq_some_iff, Bool.not_eq_true']

theorem get?_dropZone_eq_some_iff {k v : Bytes} : (dropZone name r).get? k = some v ↔
    r.get? k = some v ∧ k ≠ zoneKey name ∧ ¬∃ a, k = memberView.key a ∧ v = Utf8.encode name := by
  rw [get?_dropZone_iff, ← Bool.not_eq_true, concerns_iff, not_or]

/-- The removal counts the memberships that it takes away. -/
theorem size_dropZone (h : (r.get? (zoneKey name)).isSome) :
    (dropZone name r).size + memberCount name r + 1 = r.size := by
  let members := (membersOf (Utf8.encode name) (memberView.contents r)).map memberView.key
  have hget : ∀ k ∈ members, (r.erase (zoneKey name)).get? k = some (Utf8.encode name) := fun k hk => by
    obtain ⟨a, ha, rfl⟩ := List.mem_map.1 hk
    have hne : zoneKey name ≠ memberView.key a := zoneView_key_ne_memberView_key _ _
    rw [Records.get?_erase, if_neg hne]
    exact View.mem_contents.1 (mem_membersOf.1 ha)
  have hnodup : members.Nodup := by
    have hkeys : ((memberView.contents r).map (·.1)).Nodup :=
      List.pairwise_map.2 ((memberView.ascending_contents r).imp Bytes.ne_of_lt)
    have hmembers : (membersOf (Utf8.encode name) (memberView.contents r)).Nodup :=
      hkeys.sublist (List.filter_sublist.map _)
    exact hmembers.map fun _ _ => View.key_injective
  have hzone := Records.size_erase h
  have hrest := Records.size_foldl_erase hnodup fun k hk => by rw [hget k hk]; rfl
  rw [foldl_erase_members, List.length_map] at hrest
  rw [memberCount]
  omega

/-- No membership of the zone is left. -/
theorem get?_dropZone_ne (k : Bytes) : (dropZone name r).get? (memberView.key k) ≠ some (Utf8.encode name) :=
  fun h => (get?_dropZone_eq_some_iff.1 h).2.2 ⟨k, rfl, rfl⟩

theorem get?_dropZone_member {a : String} (h : r.get? (memberKey a) = some (Utf8.encode name)) :
    (dropZone name r).get? (memberKey a) = none := by
  refine Option.eq_none_iff_forall_ne_some.2 fun v hv => ?_
  have hr := (get?_dropZone_eq_some_iff.1 hv).1
  obtain rfl := Option.some.inj (h.symm.trans hr)
  exact get?_dropZone_ne _ hv

theorem registered_dropZone {zone : String} (hne : zone ≠ name) (h : registered r zone = true) :
    registered (dropZone name r) zone = true := by
  obtain ⟨hnamed, hsome⟩ := Bool.and_eq_true_iff.1 h
  obtain ⟨b, hb⟩ := Option.isSome_iff_exists.1 hsome
  have hkey : zoneKey zone ≠ zoneKey name := fun he => hne (zoneKey_inj.1 he)
  have hb' : (dropZone name r).get? (zoneKey zone) = some b :=
    get?_dropZone_eq_some_iff.2 ⟨hb, hkey, fun ⟨_, ha, _⟩ => zoneView_key_ne_memberView_key _ _ ha⟩
  rw [registered, hnamed, hb']
  rfl

end Records

/-! ## The removal of a zone -/

/-- What a session `t` owes to the removal of a zone from the session `s`, of which `count` members were counted. -/
structure Cascade (cfg : Settings) (name : String) (count : Nat) (s t : Session) : Prop where
  /-- Of the records go the zone's own and the memberships in it, and no others. -/
  left : ∀ k v, t.records.get? k = some v ↔
    s.records.get? k = some v ∧ k ≠ zoneKey name ∧ ¬∃ a, k = memberView.key a ∧ v = Utf8.encode name
  /-- Besides the zone's own record as many are gone as were counted. -/
  counted : t.records.size + count + 1 = s.records.size
  /-- The records are committed unless a block is open, and the count is logged. -/
  made : t = (s.write t.records).tell [.removedZone name count]
  /-- Former members can be put into any other zones. -/
  free : ∀ (xs : List String) (zone : String → String),
    (∀ a ∈ xs, s.records.get? (memberKey a) = some (Utf8.encode name) ∧ registered s.records (zone a) = true ∧
      zone a ≠ name) →
    ∃ u, (forM xs fun a => addAddress cfg (zone a) a).run t = (.ok (), u) ∧
      ∀ a ∈ xs, (zoneNameOf (.named a)).run u = (.ok (some (zone a)), u)
  /-- A zone that is registered under the same name has no members, and former members are nowhere. -/
  forgotten : ∀ f : Flags, ∃ u, (addZone ⟨f, name⟩).run t = (.ok (), u) ∧
    (listAddresses name none).run u = (.ok ([], {}), u) ∧
    ∀ a, s.records.get? (memberKey a) = some (Utf8.encode name) → (zoneNameOf (.named a)).run u = (.ok none, u)

/-! ### Former members -/

theorem membership_of_get?_eq_none {r : Records} {a : String} (h : r.get? (memberKey a) = none) :
    membership r (.named a) = .ok none := by
  rw [membership, h]
  exact ite_self _

/-- Addresses that are in no zone, put into zones that are there. -/
theorem run_forM_addAddress {cfg : Settings} {t : Session} (ht : t.Ready) {xs : List String} {zone : String → String}
    (hx : ∀ a ∈ xs, (∃ raw, Address.validate a cfg.addressPrefix = .ok raw) ∧ t.records.get? (memberKey a) = none ∧
      registered t.records (zone a) = true) :
    ∃ u, (forM xs fun a => addAddress cfg (zone a) a).run t = (.ok (), u) ∧
      ∀ a ∈ xs, (zoneNameOf (.named a)).run u = (.ok (some (zone a)), u) := by
  let ms := xs.map fun a => (a, zone a)
  have hadmits : ∀ m ∈ ms, Admits cfg.addressPrefix t.records m := List.forall_mem_map.2 fun a ha => by
    obtain ⟨hv, hnone, hz⟩ := hx a ha
    exact ⟨hz, hv, fun b hb => by rw [hnone] at hb; cases hb⟩
  have hsame : ∀ m ∈ ms, ∀ m' ∈ ms, m.1 = m'.1 → m.2 = m'.2 :=
    List.forall_mem_map.2 fun a _ => List.forall_mem_map.2 fun b _ hab => congrArg zone hab
  have hbatch := Edit.batch_addAddresses_iff.2 ⟨hadmits, hsame, rfl⟩
  obtain ⟨es, hrun⟩ := Edit.does_forM cfg (ms.map fun m => .addAddress m.2 m.1) ht
  rw [hbatch, List.map_map, List.forM_map] at hrun
  refine ⟨_, hrun, fun a ha => ?_⟩
  have hlook : (t.records.insertAll memberRecord ms).get? (memberKey a) = some (Utf8.encode (zone a)) := by
    rw [Holds.get?_insertAll_memberKey]
    cases hf : ms.reverse.find? fun m => m.1 = a with
    | none => simpa using List.find?_eq_none.1 hf (a, zone a) (List.mem_reverse.2 (List.mem_map_of_mem ha))
    | some m =>
      obtain ⟨b, -, rfl⟩ := List.mem_map.1 (List.mem_reverse.1 (List.mem_of_find?_eq_some hf))
      have hb : b = a := by simpa using List.find?_some hf
      rw [hb]
      rfl
  obtain ⟨raw, hv⟩ := (hx a ha).1
  rw [run_zoneNameOf (by simpa using ht.live)]
  simp [membership, isEmpty_of_validate hv, hlook, Utf8.decode?_encode]

/-- A zone that is registered where no membership names it has no members. -/
theorem run_addZone_memberless {cfg : Settings} {t : Session} (ht : t.Ready) (hsound : Sound cfg.addressPrefix t.records)
    {name : String} (hn : name.isEmpty = false)
    (hnone : ∀ a : String, t.records.get? (memberKey a) ≠ some (Utf8.encode name)) (f : Flags) :
    ∃ u, (addZone ⟨f, name⟩).run t = (.ok (), u) ∧ (listAddresses name none).run u = (.ok ([], {}), u) ∧
      ∀ a, t.records.get? (memberKey a) = none → (zoneNameOf (.named a)).run u = (.ok none, u) := by
  have hplan : (Edit.addZone ⟨f, name⟩).plan cfg t.records =
      .ok (t.records.insert (zoneKey name) (Zone.encode ⟨f, name⟩), [.storedZone name]) := by
    simp [Edit.plan, ZoneDraft.zone?, Text.plain?, hn]
  have hrun := Edit.run_act cfg ht (.addZone ⟨f, name⟩)
  rw [Edit.ending, hplan] at hrun
  have hmember : ∀ a, (t.records.insert (zoneKey name) (Zone.encode ⟨f, name⟩)).get? (memberKey a) =
      t.records.get? (memberKey a) := fun a => by
    have hne : zoneKey name ≠ memberKey a := zoneView_key_ne_memberView_key _ _
    rw [Records.get?_insert, if_neg hne]
  obtain ⟨zs, ms, hh⟩ := (hsound.makes (Edit.makes_of_plan hplan)).holds
  have hlive : ((t.write (t.records.insert (zoneKey name) (Zone.encode ⟨f, name⟩))).tell
      [.storedZone name]).store.link = .live := by simpa using ht.live
  have hempty : (ms.filter fun m => name.isEmpty || m.2 = name) = [] := by
    refine List.filter_eq_nil_iff.2 fun m hm => ?_
    have hmn : m.2 ≠ name := fun he => hnone m.1 (by rw [← hmember, hh.get?_member hm, he])
    simp [hn, hmn]
  refine ⟨_, hrun, ?_, fun a ha => ?_⟩
  · rw [Holds.run_listAddresses hlive (by simpa using hh), hempty]
    rfl
  · rw [run_zoneNameOf hlive, membership_of_get?_eq_none (by simpa [hmember] using ha)]

/-- **The removal of a zone takes its members with it**, and nothing else. The count that it logs is that of the
members, who can be put into any other zones; if the zone is registered again it has none of them. -/
theorem removal_cascades (cfg : Settings) (s : Session) (h : Reachable cfg s) (name : String)
    (hz : registered s.records name = true) :
    ∃ t count, (removeZone name).run s = (.ok (), t) ∧ Cascade cfg name count s t := by
  have hup := h.upholds
  have hrun := run_removeZone hup.toReady name
  rw [if_pos hz] at hrun
  let t := (s.write (dropZone name s.records)).tell [.removedZone name (memberCount name s.records)]
  have ht : t.Ready := (hup.toReady.write _).tell _
  have hr : t.records = dropZone name s.records := by simp [t]
  have hsound : Sound cfg.addressPrefix t.records := hr ▸ hup.working.dropZone name
  refine ⟨t, memberCount name s.records, hrun, ?_, ?_, ?_, fun xs zone hx => ?_, fun f => ?_⟩
  · rw [hr]
    exact fun k v => get?_dropZone_eq_some_iff
  · rw [hr]
    exact size_dropZone (isSome_of_registered hz)
  · rw [hr]
  · refine run_forM_addAddress ht fun a ha => ?_
    obtain ⟨hm, hw, hne⟩ := hx a ha
    obtain ⟨m, ⟨hv, -⟩, he⟩ := hup.working.exists_member (View.mem_contents.2 hm)
    have hma : m.1 = a := Utf8.encode_injective (congrArg Prod.fst he)
    rw [hr]
    exact ⟨hma ▸ hv, get?_dropZone_member hm, registered_dropZone hne hw⟩
  · have hnone : ∀ a : String, t.records.get? (memberKey a) ≠ some (Utf8.encode name) := fun a =>
      hr ▸ get?_dropZone_ne _
    obtain ⟨u, hu, hlist, hfree⟩ := run_addZone_memberless ht hsound (isEmpty_of_registered hz) hnone f
    exact ⟨u, hu, hlist, fun a ha => hfree a (hr ▸ get?_dropZone_member ha)⟩

/-- Of two zones, one of which begins with the name of the other, the shorter is removed. Its members join the
other. -/
theorem removal_cascades_extended :
    let a := ["terra1qg5kk8l9", "terra1qslr6n5t"]
    let b := "terra1qq2zjtpc"
    let s := ((importState {} ⟨[⟨{}, "z"⟩, ⟨{}, "zz"⟩], [⟨"z", a.map .plain⟩, ⟨"zz", [b]⟩]⟩).run start).2
    let t := ((removeZone "z").run s).2
    (removeZone "z").run s = (.ok (), t) ∧ t.log.head? = some (.removedZone "z" 2) ∧
      t.records.get? (memberKey b) = some (Utf8.encode "zz") ∧
      ∃ u, (forM a fun x : String => addAddress {} "zz" x).run t = (.ok (), u) ∧
        ∀ x ∈ a, (zoneNameOf (.named x)).run u = (.ok (some "zz"), u) := by
  intro a b s t
  have hr : Reachable {} s := ⟨.step (.importState _), List.mem_cons_of_mem _ List.mem_cons_self⟩
  obtain ⟨t', count, hrun, hc⟩ := removal_cascades {} s hr "z" (by decide +kernel)
  obtain rfl : t = t' := congrArg Prod.snd hrun
  have hsize : t.records.size = 2 ∧ s.records.size = 5 := by decide +kernel
  have hcount : count = 2 := by
    have := hc.counted
    omega
  have hother : s.records.get? (memberKey b) = some (Utf8.encode "zz") := by decide +kernel
  refine ⟨hrun, ?_, ?_, hc.free a (fun _ => "zz") (by decide +kernel)⟩
  · rw [hc.made, hcount]
    rfl
  · refine (hc.left _ _).2 ⟨hother, (zoneView_key_ne_memberView_key _ _).symm, fun ⟨_, _, he⟩ => ?_⟩
    exact absurd (Utf8.encode_injective he) (by decide)

end Registry

end ExemptZones
