import ExemptZones.Proofs.Batches
import ExemptZones.Proofs.Views

/-
A zone that was stored, read back. Its name stands in the store twice, as the key of the record and inside the record,
and neither way is a name taken for another or changed. So whichever way the zone is read it is what was stored, and
what is read of the other zones is what was read before.

`readsBack_of_insert`: all ways of reading, for a store in which nothing but the records of the zones is in order.
`stored_zones_read_back`: both ways of storing a zone.
-/

namespace ExemptZones.Registry

open ExemptZones.Action

-- Of the bytes of a zone's record it matters only that they read back.
attribute [local irreducible] Zone.encode

section Readings

variable {s t : Session} {z : Zone}

/-! ## Reading single zones -/

/-- What is read under a name depends on the record of that name alone. -/
theorem run_getZone_congr (hs : s.store.link = .live) (ht : t.store.link = .live) {name : String}
    (h : t.records.get? (zoneKey name) = s.records.get? (zoneKey name)) :
    ∃ x, (getZone name).run s = (x, s) ∧ (getZone name).run t = (x, t) := by
  rw [zoneKey] at h
  simp only [getZone, encodable_plain, pure_bind, run_bind, zoneView.run_get hs, zoneView.run_get ht, h]
  cases s.records.get? (zoneView.key (Utf8.encode name)) with
  | none => exact ⟨_, rfl, rfl⟩
  | some b =>
    simp only [decodeZone]
    cases Zone.decode b with
    | ok y => exact ⟨_, rfl, rfl⟩
    | error fs => exact ⟨_, rfl, rfl⟩

/-- A party in a zone whose record can be read. -/
theorem run_resolve_nil (hs : s.store.link = .live) {p : Party} {name : String}
    (hp : (zoneNameOf p).run s = (.ok (some name), s)) (hz : zoneUnder s.records (Utf8.encode name) = some z) :
    (resolve p []).run s = (.ok (some z, [(name, z)]), s) := by
  obtain ⟨b, hb, hd⟩ := Option.bind_eq_some_iff.1 hz
  cases hd' : Zone.decode b with
  | error => simp [hd', Except.toOption] at hd
  | ok y =>
    obtain rfl : y = z := by simpa [hd', Except.toOption] using hd
    simp [resolve, hp, zoneView.run_get hs, hb, decodeZone, hd', ofChecked]

/-! ## Reading many zones -/

theorem run_decodeZone {e : Record} (h : ∃ z, Zone.decode e.2 = .ok z) :
    (decodeZone e.2).run s = (.ok (zoneOf e), s) := by
  obtain ⟨z, hz⟩ := h
  rw [decodeZone, zoneOf, hz]
  rfl

/-- Zones read from records, one from each, and the record under the name of `z` says `z`. -/
def Shows (z : Zone) (es : List Record) (zs : List Zone) : Prop :=
  List.Forall₂ (fun e y => e.1 = Utf8.encode z.name → y = z) es zs

theorem shows_map_zoneOf {es : List Record} (h : ∀ e ∈ es, e.1 = Utf8.encode z.name → e.2 = z.encode) :
    Shows z es (es.map zoneOf) := by
  refine List.forall₂_map_right_iff.2 (List.forall₂_same.2 fun e he hk => ?_)
  rw [zoneOf, h e he hk, z.decode_encode]
  rfl

theorem run_zones_of_decode (hs : s.store.link = .live) (hz : ZonesDecode s.records) :
    zones.run s = (.ok ((zoneView.contents s.records).map zoneOf), s) := by
  have hread : ∀ e ∈ zoneView.contents s.records, (decodeZone e.2).run s = (.ok (zoneOf e), s) := fun e he =>
    run_decodeZone (hz e.1 e.2 (View.mem_contents.1 he))
  simp only [zones, run_bind, zoneView.run_scan hs, run_mapM hread]

/-- A listing that is not refused holds the zones of a page of records. -/
theorem run_listZones_of_decode (hs : s.store.link = .live) (hz : ZonesDecode s.records)
    (request : Option PageRequest) (hr : ¬((request.getD {}).key ≠ none ∧ 0 < (request.getD {}).offset)) :
    ∃ walk page, IsPage (request.getD {}) (fun _ => true)
        ((request.getD {}).candidates (zoneView.contents s.records)) walk page ∧
      (∀ e ∈ walk.collected fun _ => true, e ∈ zoneView.contents s.records) ∧
      (listZones request).run s = (.ok ((walk.collected fun _ => true).map zoneOf, page), s) := by
  have hread : ∀ e ∈ zoneView.contents s.records, (decodeZone e.2).run s = (.ok (zoneOf e), s) := fun e he =>
    run_decodeZone (hz e.1 e.2 (View.mem_contents.1 he))
  obtain ⟨walk, page, hp, hrun⟩ := run_read hs hread rfl fun h => hr ⟨Option.isSome_iff_ne_none.1 h.1, h.2⟩
  exact ⟨walk, page, hp, fun e he => (PageRequest.mem_candidates.1 (hp.mem_of_collected he)).1, hrun⟩

end Readings

/-! ## A zone that was stored -/

/-- Whichever way the session `t` is asked for the zone `z`, it says what `z` is, and of every other zone what `s`
said. -/
structure ReadsBack (s t : Session) (z : Zone) : Prop where
  found : (getZone z.name).run t = (.ok z, t)
  resolved : ∀ p, (zoneNameOf p).run t = (.ok (some z.name), t) →
    (resolve p []).run t = (.ok (some z, [(z.name, z)]), t)
  recorded : (Utf8.encode z.name, z.encode) ∈ zoneView.contents t.records
  scanned : ∃ zs, zones.run t = (.ok zs, t) ∧ Shows z (zoneView.contents t.records) zs
  /-- Every page that has the zone's record on it shows the zone there. -/
  listed : ∀ request : Option PageRequest, ¬((request.getD {}).key ≠ none ∧ 0 < (request.getD {}).offset) →
    ∃ walk page zs, IsPage (request.getD {}) (fun _ => true)
        ((request.getD {}).candidates (zoneView.contents t.records)) walk page ∧
      (listZones request).run t = (.ok (zs, page), t) ∧ Shows z (walk.collected fun _ => true) zs
  others : ∀ n : Text, n ≠ z.name → ∃ x y, (hasZone n).run s = (x, s) ∧ (hasZone n).run t = (x, t) ∧
    (getZone n).run s = (y, s) ∧ (getZone n).run t = (y, t)

theorem ZonesDecode.insert_zone {r : Records} (h : ZonesDecode r) (z : Zone) :
    ZonesDecode (r.insert (zoneKey z.name) z.encode) := fun k b hb => by
  rw [Records.get?_insert] at hb
  split at hb
  · cases hb
    exact ⟨z, z.decode_encode⟩
  · exact h k b hb

theorem readsBack_of_insert {s t : Session} {z : Zone} (hs : s.store.link = .live) (ht : t.store.link = .live)
    (hz : ZonesDecode s.records) (hr : t.records = s.records.insert (zoneKey z.name) z.encode) : ReadsBack s t z := by
  have hself : t.records.get? (zoneKey z.name) = some z.encode := by rw [hr, Records.get?_insert, if_pos rfl]
  have hother : ∀ n, n ≠ z.name → t.records.get? (zoneKey n) = s.records.get? (zoneKey n) := fun n hn => by
    have hne : zoneKey z.name ≠ zoneKey n := fun h => hn (zoneKey_inj.1 h).symm
    rw [hr, Records.get?_insert, if_neg hne]
  have hdecode : ZonesDecode t.records := hr ▸ hz.insert_zone z
  have hunder : zoneUnder t.records (Utf8.encode z.name) = some z := by
    rw [zoneUnder, ← zoneKey, hself, Option.bind_some, z.decode_encode]
    rfl
  -- No other record of the view has the key.
  have hkey : ∀ e ∈ zoneView.contents t.records, e.1 = Utf8.encode z.name → e.2 = z.encode := fun e he hk => by
    have hget := View.mem_contents.1 he
    rw [hk, ← zoneKey, hself] at hget
    exact (Option.some.inj hget).symm
  refine ⟨(run_getZone_eq_ok_iff ht).2 hunder, fun p hp => run_resolve_nil ht hp hunder, View.mem_contents.2 hself,
    ⟨_, run_zones_of_decode ht hdecode, shows_map_zoneOf hkey⟩, fun request hreq => ?_, fun n hn => ?_⟩
  · obtain ⟨walk, page, hp, hmem, hrun⟩ := run_listZones_of_decode ht hdecode request hreq
    exact ⟨walk, page, _, hp, hrun, shows_map_zoneOf fun e he => hkey e (hmem e he)⟩
  · cases n with
    | broken b => exact ⟨.error .unencodable, .error .unencodable, rfl, rfl, rfl, rfl⟩
    | plain n =>
      have hsame := hother n fun he => hn (congrArg Text.plain he)
      obtain ⟨y, hys, hyt⟩ := run_getZone_congr hs ht hsame
      refine ⟨_, y, run_hasZone hs n, ?_, hys, hyt⟩
      rw [run_hasZone ht, registered_congr hsame]

/-- **Stored zones read back.** A zone with any name but the empty one is stored, or modified if there is one of that
name. Reading the zone, resolving a member of it, scanning the zones and listing them then all give that very zone, and
any other zone is there or not, and reads, as before. -/
theorem stored_zones_read_back (s : Session) (hs : s.store.link = .live) (hz : ZonesDecode s.records) (z : Zone)
    (hn : z.name ≠ "") :
    (∃ t, (addZone z).run s = (.ok (), t) ∧ ReadsBack s t z) ∧
      (registered s.records z.name = true → ∃ t, (modifyZone z).run s = (.ok (), t) ∧ ReadsBack s t z) := by
  have hname : z.name.isEmpty = false := by simpa using hn
  have hback : ∀ es, ReadsBack s ((s.write (s.records.insert (zoneKey z.name) z.encode)).tell es) z := fun es =>
    readsBack_of_insert hs (by simpa using hs) hz (by simp)
  constructor
  · refine ⟨_, ?_, hback [.storedZone z.name]⟩
    simp [addZone, hname, zoneView.run_set hs, zoneKey]
  · intro hreg
    refine ⟨_, ?_, hback [.modifiedZone z.name]⟩
    simp [modifyZone, hname, run_requireZone hs, hreg, zoneView.run_set hs, zoneKey]

/-- A zone whose name has to be escaped all over gets other flags. The record of another zone was not written by the
registry. -/
theorem stored_zones_read_back_escapes :
    let n := "\"\\/\x00\n\x7f\u2028\ufeff😀"
    let r := [(zoneKey n, Zone.encode ⟨{}, n⟩), (zoneKey "b", Utf8.encode "\x7b \"name\": \"\\u0062\"\x7d"),
      (memberKey "x", Utf8.encode n)].foldl (fun r e => r.insert e.1 e.2) Records.empty
    let s : Session := ⟨.ofRecords r, []⟩
    let z : Zone := ⟨⟨true, false, true⟩, n⟩
    let t := ((modifyZone z).run s).2
    (modifyZone z).run s = (.ok (), t) ∧ (getZone n).run t = (.ok z, t) ∧
      (resolve (.named "x") []).run t = (.ok (some z, [(n, z)]), t) ∧ (getZone "b").run t = (.ok ⟨{}, "b"⟩, t) := by
  intro n r s z t
  obtain ⟨t', hrun, hback⟩ := (stored_zones_read_back s rfl (by decide +kernel) z (by decide)).2 (by decide +kernel)
  obtain rfl : t = t' := congrArg Prod.snd hrun
  have hlive : t.store.link = .live := by decide +kernel
  have hx : (zoneNameOf (.named "x")).run t = (.ok (some n), t) := by
    rw [run_zoneNameOf hlive, show membership t.records (.named "x") = .ok (some n) by decide +kernel]
  obtain ⟨_, y, -, -, hs, ht⟩ := hback.others "b" (by decide)
  have hy : ((getZone "b").run s).1 = .ok ⟨{}, "b"⟩ := by decide +kernel
  obtain rfl : y = .ok ⟨{}, "b"⟩ := (congrArg Prod.fst hs).symm.trans hy
  exact ⟨hrun, hback.found, hback.resolved _ hx, ht⟩

end ExemptZones.Registry
