import ExemptZones.Proofs.Agreement
import ExemptZones.Proofs.Import
import ExemptZones.Proofs.Resolution

/-
What the migration of a flat list does to the decisions. It moves the addresses of the list into one zone without
flags, and touches no other record. So a party on the list is afterwards in that zone, and any other party is where it
was; the table of the decision does the rest.

`resolved_listed`, `resolved_other`: the two kinds of parties after a migration.
`run_isExempt_eq`: the answer to the question whether a transfer is exempt, as a function of the records.
-/

namespace ExemptZones.Registry

open ExemptZones.Action

-- Of the bytes of a zone's record it matters only that they read back.
attribute [local irreducible] Zone.encode

/-- The party is one of the addresses. -/
def Listed (addresses : List Text) (p : Party) : Prop :=
  ∃ a ∈ addresses, p = .ofText a

/-- No address is a member of the zone. -/
def Memberless (r : Records) (zone : Text) : Prop :=
  ∀ p, ∀ name : String, zone = name → memberValue r p ≠ some (Utf8.encode name)

theorem listed_plain_iff {addresses : List String} {p : Party} :
    Listed (addresses.map .plain) p ↔ ∃ a ∈ addresses, p = .named a := by
  simp [Listed, Party.ofText]

theorem memberless_of_forall_ne {r : Records} {zone : String} (h : ∀ e ∈ r.entries, e.2 ≠ Utf8.encode zone) :
    Memberless r zone := by
  intro p name hn hp
  cases hn
  cases p with
  | unspecified | unencodable => cases hp
  | named a =>
    rw [memberValue] at hp
    split at hp
    · cases hp
    · exact h _ (Records.mem_entries_iff.2 hp) rfl

/-! ## Reachable registries can be read -/

theorem Sound.readable {hrp : String} {r : Records} (h : Sound hrp r) : Readable r where
  zones k b hb := by
    rcases (h _ (Records.mem_entries_iff.2 hb)).eq with ⟨z, -, hk, rfl⟩ | ⟨_, _, -, -, hk, -⟩
    · exact ⟨z, z.decode_encode, View.key_injective hk⟩
    · exact absurd hk (zoneView_key_ne_memberView_key _ _)
  members k b hb := by
    rcases (h _ (Records.mem_entries_iff.2 hb)).eq with ⟨_, -, hk, -⟩ | ⟨_, zone, -, -, -, rfl⟩
    · exact absurd hk.symm (zoneView_key_ne_memberView_key _ _)
    · rw [Utf8.decode?_encode]
      rfl

/-- Every membership of a sound registry is in a zone that is there. -/
theorem Sound.exists_resolved {hrp : String} {r : Records} (h : Sound hrp r) {p : Party} {m : Bytes}
    (hm : memberValue r p = some m) : ∃ w, resolved r p = some w ∧ m = Utf8.encode w.name := by
  have hget : ∃ a, r.get? (memberKey a) = some m := by
    cases p with
    | unspecified | unencodable => cases hm
    | named a =>
      rw [memberValue] at hm
      split at hm
      · cases hm
      · exact ⟨a, hm⟩
  obtain ⟨a, ha⟩ := hget
  rcases (h _ (Records.mem_entries_iff.2 ha)).eq with ⟨_, -, hk, -⟩ | ⟨_, zone, -, hp, -, rfl⟩
  · exact absurd hk.symm (zoneView_key_ne_memberView_key _ _)
  · obtain ⟨b, hb⟩ := Option.isSome_iff_exists.1 hp
    obtain ⟨w, hw, hn⟩ := h.readable.zones _ b hb
    have hu : zoneUnder r (Utf8.encode zone) = some w := by
      rw [zoneUnder, ← zoneKey, hb, Option.bind_some, hw]
      rfl
    exact ⟨w, by rw [resolved, hm, Option.bind_some, hu], hn⟩

theorem resolved_empty (p : Party) : resolved .empty p = none := by
  have hm : memberValue .empty p = none := by
    cases p with
    | unspecified | unencodable => rfl
    | named a => exact ite_self none
  rw [resolved, hm]
  rfl

/-- The answer depends on the zones of the two sides alone. -/
theorem run_isExempt_eq {s : Session} (hs : s.store.link = .live) (hr : Readable s.records) (p q : Party) :
    (isExempt p q).run s = (.ok (Decision.exempt (resolved s.records p) (resolved s.records q)), s) := by
  obtain ⟨cache, hp, hc⟩ := run_resolve hs hr p (Agrees.nil _)
  obtain ⟨cache', hq, -⟩ := run_resolve hs hr q hc
  simp [isExempt, hp, hq]

/-! ## The records after a migration -/

/-- The records with a zone without flags and the addresses in it. -/
def migrated (r : Records) (addresses : List String) (zone : String) : Records :=
  (r.insertAll zoneRecord [⟨{}, zone⟩]).insertAll memberRecord (addresses.map fun a => (a, zone))

section Migrated

variable {hrp : String} {r : Records} {addresses : List String} {zone : String} {p : Party}

theorem get?_migrated_zone : (migrated r addresses zone).get? (zoneKey zone) = some (Zone.encode ⟨{}, zone⟩) := by
  rw [migrated, Holds.get?_members_zoneKey, Holds.get?_insertAll_zoneKey]
  simp

/-- The record of any other zone stays. -/
theorem get?_migrated_zone_of_ne {k : Bytes} (hk : k ≠ Utf8.encode zone) :
    (migrated r addresses zone).get? (zoneView.key k) = r.get? (zoneView.key k) := by
  rw [migrated, Records.get?_insertAll_of_forall_ne _ fun _ _ => (zoneView_key_ne_memberView_key _ _).symm]
  have hne : zoneKey zone ≠ zoneView.key k := fun h => hk (View.key_injective h).symm
  simp [Records.insertAll, zoneRecord, Records.get?_insert, hne]

theorem get?_migrated_member (a : String) : (migrated r addresses zone).get? (memberKey a) =
    if a ∈ addresses then some (Utf8.encode zone) else r.get? (memberKey a) := by
  rw [migrated, get?_insertAll_members, Holds.get?_zones_memberKey]
  simp only [memberKey_mem_map]

theorem memberValue_migrated_of_not_listed (hp : ¬ Listed (addresses.map .plain) p) :
    memberValue (migrated r addresses zone) p = memberValue r p := by
  cases p with
  | unspecified | unencodable => rfl
  | named a =>
    have ha : a ∉ addresses := fun ha => hp (listed_plain_iff.2 ⟨a, ha, rfl⟩)
    simp only [memberValue, get?_migrated_member, if_neg ha]

/-- A party on the list is in a zone without flags. -/
theorem resolved_listed (hv : ∀ a ∈ addresses, ∃ raw, Address.validate a hrp = .ok raw)
    (hp : Listed (addresses.map .plain) p) : resolved (migrated r addresses zone) p = some ⟨{}, zone⟩ := by
  obtain ⟨a, ha, rfl⟩ := listed_plain_iff.1 hp
  obtain ⟨raw, hraw⟩ := hv a ha
  have hz : zoneUnder (migrated r addresses zone) (Utf8.encode zone) = some ⟨{}, zone⟩ := by
    rw [zoneUnder, ← zoneKey, get?_migrated_zone, Option.bind_some, Zone.decode_encode]
    rfl
  rw [resolved, memberValue, isEmpty_of_validate hraw, if_neg Bool.false_ne_true, get?_migrated_member, if_pos ha,
    Option.bind_some, hz]

/-- Any other party is where it was, and that is not the zone of the list. -/
theorem resolved_other (hz : Memberless r zone) (hp : ¬ Listed (addresses.map .plain) p) :
    resolved (migrated r addresses zone) p = resolved r p := by
  rw [resolved, resolved, memberValue_migrated_of_not_listed hp]
  cases hm : memberValue r p with
  | none => rfl
  | some m =>
    have hne : m ≠ Utf8.encode zone := fun he => hz p zone rfl (he ▸ hm)
    rw [Option.bind_some, Option.bind_some, zoneUnder, zoneUnder, get?_migrated_zone_of_ne hne]

end Migrated

/-! ## The migration of a reachable registry -/

/-- A migration that succeeds took only addresses, and leaves the records with them in their zone. -/
theorem run_migrate_ok {cfg : Settings} {s t : Session} {addresses : List Text} {zone : Text} {n : Nat}
    (h : Reachable cfg s) (hm : (migrate cfg addresses zone).run s = (.ok n, t)) :
    ∃ (xs : List String) (name : String), addresses = xs.map .plain ∧ zone = name ∧
      (∀ a ∈ xs, ∃ raw, Address.validate a cfg.addressPrefix = .ok raw) ∧
      t.records = migrated s.records xs name ∧ t.Upholds (Sound cfg.addressPrefix) := by
  have hup := h.upholds
  have hact : ((Change.migrate addresses zone).act cfg).run s = (.ok (), t) := by
    rw [Change.run_migrate, hm]
    rfl
  have ht := (Change.upholds cfg (.migrate addresses zone) s hup).1
  obtain ⟨es, he⟩ := (Change.migrate addresses zone).does cfg hup.toReady
  rw [hact] at ht he
  obtain ⟨hx, rfl⟩ := Prod.mk.inj he
  obtain ⟨zs, ms, hh⟩ := hup.working.holds
  have hresult : Change.result cfg (.importState (.single {} zone addresses)) s.records =
      (.ok (), (Change.result cfg (.migrate addresses zone) s.records).2) := by
    rw [Change.result_importState, ← Change.result_migrate]
    exact Prod.ext hx.symm rfl
  obtain ⟨hi, hr⟩ := (hh.import_draft_iff _ _).1 hresult
  have hvalid : ∀ t ∈ addresses, ∃ raw, Address.validate t cfg.addressPrefix = .ok raw :=
    hi.valid ⟨zone, addresses⟩ (List.mem_singleton.2 rfl)
  obtain ⟨name, rfl⟩ : ∃ name : String, zone = name := hi.encoded ⟨{}, zone⟩ (List.mem_singleton.2 rfl)
  obtain ⟨xs, rfl, -⟩ := exists_map_eq (P := fun _ : String => True) (f := Text.plain) fun t ht => by
    obtain ⟨raw, hv⟩ := hvalid t ht
    obtain ⟨a, ha⟩ := eq_plain_of_validate hv
    exact ⟨a, trivial, ha.symm⟩
  refine ⟨xs, name, rfl, rfl, fun a ha => hvalid a (List.mem_map_of_mem ha), ?_, ht⟩
  have hgroup : (⟨name, xs.map .plain⟩ : GroupDraft).group? = some ⟨name, xs⟩ := GroupDraft.group?_eq_some_iff.2 rfl
  have hstate : (GenesisDraft.single {} name (xs.map .plain)).state = ⟨[⟨{}, name⟩], [⟨name, xs⟩]⟩ := by
    rw [GenesisDraft.state, GenesisDraft.single, List.filterMap_cons_some hgroup]
    rfl
  rw [Session.records_tell, Session.records_write, ← hx, Session.kept, hr, hstate]
  simp [GenesisState.members, migrated]

/-- The decision `b` between a party of a zone without flags and a party `other` that is not in it: not exempt if the
other is in no zone, and else as the other's own zone says, by its flag for this direction and the one for other
zones. -/
structure DecidedByOther (r : Records) (zone : Text) (flag : Zone → Bool) (other : Party) (b : Bool) : Prop where
  alone : memberValue r other = none → b = false
  apart : ∀ m, memberValue r other = some m → ∃ w, resolved r other = some w ∧ m = Utf8.encode w.name ∧
    (w.name : Text) ≠ zone ∧ (b = true ↔ flag w = true ∧ w.crossZone = true)

section Decided

variable {hrp : String} {r : Records} {zone : String} {p : Party}

theorem decidedByOther_recipient (h : Sound hrp r) (hp : memberValue r p ≠ some (Utf8.encode zone)) :
    DecidedByOther r zone (·.incoming) p (Decision.exempt (some ⟨{}, zone⟩) (resolved r p)) where
  alone hm := by rw [resolved, hm]; rfl
  apart m hm := by
    obtain ⟨w, hw, rfl⟩ := h.exists_resolved hm
    have hne : w.name ≠ zone := fun he => hp (he ▸ hm)
    exact ⟨w, hw, rfl, by simpa using hne, by simp [hw, Decision.exempt, Decision.crosses, hne.symm]⟩

theorem decidedByOther_sender (h : Sound hrp r) (hp : memberValue r p ≠ some (Utf8.encode zone)) :
    DecidedByOther r zone (·.outgoing) p (Decision.exempt (resolved r p) (some ⟨{}, zone⟩)) where
  alone hm := by rw [resolved, hm]; rfl
  apart m hm := by
    obtain ⟨w, hw, rfl⟩ := h.exists_resolved hm
    have hne : w.name ≠ zone := fun he => hp (he ▸ hm)
    exact ⟨w, hw, rfl, by simpa using hne, by simp [hw, Decision.exempt, Decision.crosses, hne]⟩

end Decided

/-- **A migration keeps the decisions of the list.** Once the addresses of a list were moved into a zone that had no
members, a transfer between two of them is exempt; one between an address of the list and any other party is decided by
the flags of the other party's own zone, and taxed if there is none; and nothing changes between two other parties. In
a registry that was empty, the transfers that are exempt are those between two addresses of the list. -/
theorem migration_keeps_decisions (cfg : Settings) (s t : Session) (h : Reachable cfg s) (addresses : List Text)
    (zone : Text) (n : Nat) (hz : Memberless s.records zone)
    (hm : (migrate cfg addresses zone).run s = (.ok n, t)) (p q : Party) :
    ∃ b, (isExempt p q).run t = (.ok b, t) ∧ (isTaxable p q).run t = (.ok !b, t) ∧
      (Listed addresses p → Listed addresses q → b = true) ∧
      (Listed addresses p → ¬ Listed addresses q → DecidedByOther t.records zone (·.incoming) q b) ∧
      (¬ Listed addresses p → Listed addresses q → DecidedByOther t.records zone (·.outgoing) p b) ∧
      (¬ Listed addresses p → ¬ Listed addresses q → (isExempt p q).run s = (.ok b, s)) ∧
      (s.records = .empty → (b = true ↔ Listed addresses p ∧ Listed addresses q)) := by
  obtain ⟨xs, name, rfl, rfl, hv, ht, hup⟩ := run_migrate_ok h hm
  have hs := h.upholds
  have he := run_isExempt_eq hup.live hup.working.readable p q
  have hlisted : ∀ {p}, Listed (xs.map .plain) p → resolved t.records p = some ⟨{}, name⟩ := fun hp =>
    ht ▸ resolved_listed hv hp
  have hother : ∀ {p}, ¬ Listed (xs.map .plain) p → resolved t.records p = resolved s.records p := fun hp =>
    ht ▸ resolved_other hz hp
  have houtside : ∀ {p}, ¬ Listed (xs.map .plain) p → memberValue t.records p ≠ some (Utf8.encode name) := fun hp => by
    rw [ht, memberValue_migrated_of_not_listed hp]
    exact hz _ name rfl
  refine ⟨_, he, by simp [isTaxable, he], fun hp hq => ?_, fun hp hq => ?_, fun hp hq => ?_, fun hp hq => ?_,
    fun hempty => ?_⟩
  · simp [hlisted hp, hlisted hq, Decision.exempt]
  · rw [hlisted hp]
    exact decidedByOther_recipient hup.working (houtside hq)
  · rw [hlisted hq]
    exact decidedByOther_sender hup.working (houtside hp)
  · rw [hother hp, hother hq]
    exact run_isExempt_eq hs.live hs.working.readable p q
  · have hnone : ∀ {p}, ¬ Listed (xs.map .plain) p → resolved t.records p = none := fun {p} hp => by
      rw [hother hp, hempty, resolved_empty]
    by_cases hp : Listed (xs.map .plain) p <;> by_cases hq : Listed (xs.map .plain) q <;>
      simp [hp, hq, hlisted, hnone, Decision.exempt]

/-- A zone that had flags takes a list with a repeat. Toward a zone that takes transfers from other zones a transfer is
exempt, and back it is not. -/
theorem migration_keeps_decisions_flagged :
    let a := "terra1qypqx0kxuu8"
    let b := "terra1qslr6n5t"
    let script : Script Change := .seq (.step (.edit (.addZone ⟨⟨true, true, true⟩, "z"⟩)))
      (.step (.importState ⟨[⟨⟨false, true, true⟩, "w"⟩], [⟨"w", [b]⟩]⟩))
    let s := ((script.run (Change.act {})).run start).2
    let t := ((migrate {} [a, a] "z").run s).2
    (isExempt (.named a) (.named b)).run t = (.ok true, t) ∧
      (isExempt (.named b) (.named a)).run t = (.ok false, t) := by
  intro a b script s t
  have hs : Reachable {} s := ⟨script, script.end_mem_states start⟩
  have hz : Memberless s.records "z" := memberless_of_forall_ne (by decide +kernel)
  have ht : (migrate {} [a, a] "z").run s = (.ok 2, t) := Prod.ext (by decide +kernel) rfl
  have ha : Listed [a, a] (.named a) := ⟨a, by simp, rfl⟩
  have hb : ¬ Listed [a, a] (.named b) := by simp [Listed, Party.ofText, a, b]
  obtain ⟨x, hx, -, -, hout, -⟩ := migration_keeps_decisions {} s t hs [a, a] "z" 2 hz ht (.named a) (.named b)
  obtain ⟨y, hy, -, -, -, hin, -⟩ := migration_keeps_decisions {} s t hs [a, a] "z" 2 hz ht (.named b) (.named a)
  have hm : memberValue t.records (.named b) = some (Utf8.encode "w") := by decide +kernel
  have hw : resolved t.records (.named b) = some ⟨⟨false, true, true⟩, "w"⟩ := by decide +kernel
  obtain ⟨_, hr, -, -, hiff⟩ := (hout ha hb).apart _ hm
  obtain ⟨_, hr', -, -, hiff'⟩ := (hin hb ha).apart _ hm
  obtain rfl := Option.some.inj (hw.symm.trans hr)
  obtain rfl := Option.some.inj (hw.symm.trans hr')
  have hno : y = false := Bool.eq_false_iff.2 fun hy => by simpa using hiff'.1 hy
  rw [hx, hy, hiff.2 ⟨rfl, rfl⟩, hno]
  exact ⟨rfl, rfl⟩

end ExemptZones.Registry
