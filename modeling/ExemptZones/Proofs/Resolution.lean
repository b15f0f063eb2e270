import ExemptZones.Proofs.Edit
import ExemptZones.Proofs.JsonText
import ExemptZones.Registry.Queries

/-
Which transfers are exempt, said of the records alone. Each side is looked up on its own (`resolved`), and
the table of `Exempt` says the rest; that the two look-ups share what they read makes no difference.

`run_resolve_cached`: one party, with whatever was left in the cache before, and what is in it then.
`exemption_decided`: the decision for any two sides.
-/

namespace ExemptZones.Registry

open ExemptZones.Action

/-- Every record of a zone can be read and names the zone of its key, and every membership is a text. Nothing
is asked of the zones that memberships name. -/
structure Readable (r : Records) : Prop where
  zones : ∀ k b, r.get? (zoneView.key k) = some b → ∃ z, Zone.decode b = .ok z ∧ k = Utf8.encode z.name
  members : ∀ k b, r.get? (memberView.key k) = some b → (Utf8.decode? b).isSome

/-- Every record of a zone can be read, whatever name it has in it. -/
def ZonesDecode (r : Records) : Prop :=
  ∀ k b, r.get? (zoneView.key k) = some b → ∃ z, Zone.decode b = .ok z

/-- Every membership is a text. -/
def MembersDecode (r : Records) : Prop :=
  ∀ k b, r.get? (memberView.key k) = some b → (Utf8.decode? b).isSome

instance (r : Records) : Decidable (ZonesDecode r) :=
  decidable_of_iff (∀ e ∈ zoneView.contents r, (Zone.decode e.2).toOption.isSome)
    ⟨fun h k b hb => by
      have hsome := h (k, b) (View.mem_contents.2 hb)
      cases hd : Zone.decode b with
      | ok z => exact ⟨z, rfl⟩
      | error => simp [hd, Except.toOption] at hsome,
    fun h e he => by
      obtain ⟨z, hz⟩ := h e.1 e.2 (View.mem_contents.1 he)
      rw [hz]
      rfl⟩

instance (r : Records) : Decidable (MembersDecode r) :=
  decidable_of_iff (∀ e ∈ memberView.contents r, (Utf8.decode? e.2).isSome)
    ⟨fun h k b hb => h (k, b) (View.mem_contents.2 hb), fun h e he => h e.1 e.2 (View.mem_contents.1 he)⟩

theorem Readable.zonesDecode {r : Records} (h : Readable r) : ZonesDecode r := fun k b hb =>
  let ⟨z, hz, _⟩ := h.zones k b hb
  ⟨z, hz⟩

/-! ## What the records say of a party -/

/-- The value of a party's membership. Only a text that is not empty has one. -/
def memberValue (r : Records) : Party → Option Bytes
  | .named address => if address.isEmpty then none else r.get? (memberKey address)
  | .unspecified | .unencodable _ => none

/-- The zone whose record stands under an encoded name. -/
def zoneUnder (r : Records) (name : Bytes) : Option Zone :=
  (r.get? (zoneView.key name)).bind fun b => (Zone.decode b).toOption

/-- The zone of a party, if it has a membership and the zone's record is there. -/
def resolved (r : Records) (p : Party) : Option Zone :=
  (memberValue r p).bind (zoneUnder r)

/-- The transfers that are exempt. -/
inductive Exempt (r : Records) (sender recipient : Party) : Prop where
  | sameZone {z z' : Zone} (hs : resolved r sender = some z) (hr : resolved r recipient = some z')
      (same : memberValue r sender = memberValue r recipient)
  | outgoing {z : Zone} (hs : resolved r sender = some z) (hr : resolved r recipient = none)
      (flag : z.outgoing = true)
  | incoming {z : Zone} (hs : resolved r sender = none) (hr : resolved r recipient = some z)
      (flag : z.incoming = true)
  | crossing {z z' : Zone} (hs : resolved r sender = some z) (hr : resolved r recipient = some z')
      (other : memberValue r sender ≠ memberValue r recipient)
      (flags : (z.outgoing = true ∧ z.crossZone = true) ∨ (z'.incoming = true ∧ z'.crossZone = true))

section Readable

variable {r : Records}

theorem Readable.name_of_zoneUnder (h : Readable r) {m : Bytes} {z : Zone} (hz : zoneUnder r m = some z) :
    m = Utf8.encode z.name := by
  obtain ⟨b, hb, hd⟩ := Option.bind_eq_some_iff.1 hz
  obtain ⟨z', hz', hm⟩ := h.zones m b hb
  rw [hz'] at hd
  cases hd
  exact hm

/-- A party that has a zone is a member of the zone of that name. -/
theorem Readable.memberValue_eq (h : Readable r) {p : Party} {z : Zone} (hp : resolved r p = some z) :
    memberValue r p = some (Utf8.encode z.name) := by
  obtain ⟨m, hm, hz⟩ := Option.bind_eq_some_iff.1 hp
  rw [hm, h.name_of_zoneUnder hz]

theorem memberValue_named {address : String} (h : address.isEmpty = false) :
    memberValue r (.named address) = r.get? (memberKey address) := by
  simp [memberValue, h]

theorem memberValue_of_membership {p : Party} {o : Option String} (h : membership r p = .ok o) :
    memberValue r p = o.map Utf8.encode := by
  cases p with
  | unspecified | unencodable =>
    cases h
    rfl
  | named address =>
    cases ha : address.isEmpty with
    | true =>
      simp only [membership, ha, if_true, Except.ok.injEq] at h
      rw [memberValue, ha, ← h]
      rfl
    | false => rw [memberValue_named ha, get?_of_membership ha h]

/-- Whether a party has a membership can always be told. -/
theorem MembersDecode.exists_membership (h : MembersDecode r) (p : Party) : ∃ o, membership r p = .ok o := by
  cases p with
  | unspecified | unencodable => exact ⟨none, rfl⟩
  | named address =>
    simp only [membership]
    split
    · exact ⟨none, rfl⟩
    · cases hb : r.get? (memberKey address) with
      | none => exact ⟨none, rfl⟩
      | some b =>
        obtain ⟨name, hn⟩ := Option.isSome_iff_exists.1 (h _ b hb)
        exact ⟨some name, by simp only [hn]⟩

/-- Two zones have one name if the memberships say the same. -/
theorem Readable.memberValue_eq_iff (h : Readable r) {p q : Party} {z z' : Zone} (hp : resolved r p = some z)
    (hq : resolved r q = some z') : memberValue r p = memberValue r q ↔ z.name = z'.name := by
  rw [h.memberValue_eq hp, h.memberValue_eq hq, Option.some.injEq]
  exact ⟨Utf8.encode_injective, fun he => he ▸ rfl⟩

/-- The decision is by the table of `Exempt`. -/
theorem Readable.exempt_iff (h : Readable r) (p q : Party) :
    Decision.exempt (resolved r p) (resolved r q) = true ↔ Exempt r p q := by
  constructor
  · intro he
    cases hp : resolved r p with
    | none =>
      cases hq : resolved r q with
      | none => rw [hp, hq] at he; cases he
      | some z' => rw [hp, hq] at he; exact .incoming hp hq he
    | some z =>
      cases hq : resolved r q with
      | none => rw [hp, hq] at he; exact .outgoing hp hq he
      | some z' =>
        rw [hp, hq] at he
        simp only [Decision.exempt, Decision.crosses, Bool.or_eq_true, decide_eq_true_eq, Bool.and_eq_true,
          or_assoc] at he
        by_cases hm : memberValue r p = memberValue r q
        · exact .sameZone hp hq hm
        · exact .crossing hp hq hm (he.resolve_left fun hn => hm ((h.memberValue_eq_iff hp hq).2 hn))
  · intro he
    cases he with
    | sameZone hs hr same => simp [hs, hr, Decision.exempt, (h.memberValue_eq_iff hs hr).1 same]
    | outgoing hs hr flag => rw [hs, hr]; exact flag
    | incoming hs hr flag => rw [hs, hr]; exact flag
    | crossing hs hr other flags =>
      simp only [hs, hr, Decision.exempt, Decision.crosses, Bool.or_eq_true, Bool.and_eq_true, or_assoc]
      exact .inr flags

/-! ### Records that can be read -/

theorem Readable.empty : Readable .empty where
  zones _ _ h := nomatch h
  members _ _ h := nomatch h

theorem Readable.insert_zone (h : Readable r) (z : Zone) : Readable (r.insert (zoneKey z.name) z.encode) where
  zones k b hb := by
    rw [Records.get?_insert] at hb
    split at hb
    · rename_i he
      obtain rfl : z.encode = b := Option.some.inj hb
      exact ⟨z, z.decode_encode, (View.key_injective he).symm⟩
    · exact h.zones k b hb
  members k b hb := by
    have hne : zoneKey z.name ≠ memberView.key k := zoneView_key_ne_memberView_key _ k
    rw [Records.get?_insert, if_neg hne] at hb
    exact h.members k b hb

theorem Readable.insert_member (h : Readable r) (address zone : String) :
    Readable (r.insert (memberKey address) (Utf8.encode zone)) where
  zones k b hb := by
    have hne : memberKey address ≠ zoneView.key k := (zoneView_key_ne_memberView_key k _).symm
    rw [Records.get?_insert, if_neg hne] at hb
    exact h.zones k b hb
  members k b hb := by
    rw [Records.get?_insert] at hb
    split at hb
    · obtain rfl : Utf8.encode zone = b := Option.some.inj hb
      rw [Utf8.decode?_encode]
      rfl
    · exact h.members k b hb

end Readable

/-! ## The look-ups -/

/-- A zone is read exactly if its record is there and can be read. -/
theorem run_getZone_eq_ok_iff {s : Session} (hs : s.store.link = .live) {name : String} {z : Zone} :
    (getZone name).run s = (.ok z, s) ↔ zoneUnder s.records (Utf8.encode name) = some z := by
  simp only [getZone, encodable_plain, pure_bind, run_bind, zoneView.run_get hs, zoneUnder]
  cases s.records.get? (zoneView.key (Utf8.encode name)) with
  | none => simp
  | some b =>
    cases hd : Zone.decode b with
    | ok y => simp [decodeZone, hd, ofChecked, Except.toOption]
    | error fs =>
      have hrun : (decodeZone b).run s = (.error (.misshapen Zone.title fs), s) := by rw [decodeZone, hd]; rfl
      simp [hrun, hd, Except.toOption]

/-- The cache holds nothing but what the records say. -/
def Agrees (r : Records) (cache : Cache) : Prop :=
  ∀ name z, cache.lookup name = some z → zoneUnder r (Utf8.encode name) = some z

theorem Agrees.nil (r : Records) : Agrees r [] := fun _ _ h => absurd h (by simp)

theorem Agrees.snoc {r : Records} {cache : Cache} (h : Agrees r cache) {name : String} {z : Zone}
    (hz : zoneUnder r (Utf8.encode name) = some z) : Agrees r (cache ++ [(name, z)]) := by
  intro n y hy
  rw [List.lookup_append, Option.or_eq_some_iff] at hy
  rcases hy with hy | ⟨-, hy⟩
  · exact h n y hy
  · by_cases hn : n = name
    · subst hn
      simp only [List.lookup_cons, beq_self_eq_true] at hy
      exact hz.trans hy
    · have hb : (n == name) = false := beq_eq_false_iff_ne.2 hn
      simp [List.lookup_cons, hb] at hy

/-- To agree with the records is to agree with what is read under each name. -/
theorem agrees_iff {s : Session} (hs : s.store.link = .live) {cache : Cache} : Agrees s.records cache ↔
    ∀ name z, cache.lookup name = some z → (getZone name).run s = (.ok z, s) := by
  simp only [run_getZone_eq_ok_iff hs]
  exact Iff.rfl

/-- What a look-up of a party makes of the cache, if the records are those it looks at. -/
structure Caches (r : Records) (p : Party) (cache cache' : Cache) : Prop where
  agrees : Agrees r cache'
  /-- What was in the cache is there still. -/
  kept : ∀ n y, cache.lookup n = some y → cache'.lookup n = some y
  /-- The zone that was found is in it, under the name that the membership says. -/
  found : ∀ z, resolved r p = some z → ∃ n, memberValue r p = some (Utf8.encode n) ∧ cache'.lookup n = some z
  /-- A party without a zone adds nothing, also if its membership names a zone that is gone. -/
  absent : resolved r p = none → cache' = cache

namespace Caches

variable {r : Records} {p : Party} {cache : Cache} {name : String} {z : Zone}

theorem absence (hc : Agrees r cache) (hr : resolved r p = none) : Caches r p cache cache where
  agrees := hc
  kept _ _ h := h
  found _ h := absurd (hr.symm.trans h) (Option.some_ne_none _).symm
  absent _ := rfl

theorem hit (hc : Agrees r cache) (hp : memberValue r p = some (Utf8.encode name))
    (hl : cache.lookup name = some z) : Caches r p cache cache where
  agrees := hc
  kept _ _ h := h
  found y hy := by
    rw [resolved, hp, Option.bind_some, hc name z hl] at hy
    exact ⟨name, hp, hl.trans hy⟩
  absent _ := rfl

theorem miss (hc : Agrees r cache) (hp : memberValue r p = some (Utf8.encode name)) (hl : cache.lookup name = none)
    (hz : zoneUnder r (Utf8.encode name) = some z) : Caches r p cache (cache ++ [(name, z)]) where
  agrees := hc.snoc hz
  kept n y hy := by
    rw [List.lookup_append, hy]
    rfl
  found y hy := by
    rw [resolved, hp, Option.bind_some, hz] at hy
    exact ⟨name, hp, by simpa [List.lookup_append, hl] using hy⟩
  absent hr := by
    rw [resolved, hp, Option.bind_some, hz] at hr
    cases hr

end Caches

variable {s : Session}

/-- **The zone of a party, with a cache.** It is what the records say, and the cache goes on agreeing with them. -/
theorem run_resolve_cached (hs : s.store.link = .live) (hz : ZonesDecode s.records) (hm : MembersDecode s.records)
    (p : Party) {cache : Cache} (hc : Agrees s.records cache) :
    ∃ cache', (resolve p cache).run s = (.ok (resolved s.records p, cache'), s) ∧
      Caches s.records p cache cache' := by
  obtain ⟨o, ho⟩ := hm.exists_membership p
  have hp := memberValue_of_membership ho
  unfold resolve
  simp only [run_bind, run_zoneNameOf hs, ho]
  cases o with
  | none =>
    have hr : resolved s.records p = none := by rw [resolved, hp]; rfl
    exact ⟨cache, by rw [hr]; rfl, .absence hc hr⟩
  | some name =>
    have hr : resolved s.records p = zoneUnder s.records (Utf8.encode name) := by rw [resolved, hp]; rfl
    rw [hr]
    cases hl : cache.lookup name with
    | some z => exact ⟨cache, by simp [hl, hc name z hl], .hit hc hp hl⟩
    | none =>
      cases hb : s.records.get? (zoneView.key (Utf8.encode name)) with
      | none =>
        have hu : zoneUnder s.records (Utf8.encode name) = none := by rw [zoneUnder, hb]; rfl
        exact ⟨cache, by simp [hl, zoneView.run_get hs, hb, hu], .absence hc (hr.trans hu)⟩
      | some b =>
        obtain ⟨z, hd⟩ := hz _ b hb
        have hu : zoneUnder s.records (Utf8.encode name) = some z := by simp [zoneUnder, hb, hd, Except.toOption]
        refine ⟨cache ++ [(name, z)], ?_, .miss hc hp hl hu⟩
        simp [hl, zoneView.run_get hs, hb, hu, decodeZone, hd, ofChecked]

/-- One side of a transfer. -/
theorem run_resolve (hs : s.store.link = .live) (hr : Readable s.records) (p : Party) {cache : Cache}
    (hc : Agrees s.records cache) :
    ∃ cache', (resolve p cache).run s = (.ok (resolved s.records p, cache'), s) ∧ Agrees s.records cache' := by
  obtain ⟨cache', hrun, hcache⟩ := run_resolve_cached hs hr.zonesDecode hr.members p hc
  exact ⟨cache', hrun, hcache.agrees⟩

/-- **Whether a transfer is exempt.** The question is answered from the records as they stand, by the table,
for any two sides; it never fails and writes nothing. The other two forms of the question get the opposite
answer. -/
theorem exemption_decided (s : Session) (hs : s.store.link = .live) (hr : Readable s.records) (p q : Party) :
    ∃ b, (isExempt p q).run s = (.ok b, s) ∧ (b = true ↔ Exempt s.records p q) ∧
      (isTaxable p q).run s = (.ok !b, s) ∧ (answer (some (.taxable p q))).run s = (.ok (.taxable !b), s) := by
  obtain ⟨cache, hp, hc⟩ := run_resolve hs hr p (Agrees.nil _)
  obtain ⟨cache', hq, -⟩ := run_resolve hs hr q hc
  have he : (isExempt p q).run s = (.ok (Decision.exempt (resolved s.records p) (resolved s.records q)), s) := by
    simp [isExempt, hp, hq]
  have ht : (isTaxable p q).run s = (.ok !(Decision.exempt (resolved s.records p) (resolved s.records q)), s) := by
    simp [isTaxable, he]
  exact ⟨_, he, hr.exempt_iff p q, ht, by simp [answer, ht]⟩

/-- A member of a zone that may send out of it, and another whose zone is gone. -/
theorem exemption_decided_dangling :
    let z : Zone := ⟨{ outgoing := true }, "a"⟩
    let r := ((Records.empty.insert (zoneKey z.name) z.encode).insert (memberKey "x") (Utf8.encode "a")).insert
      (memberKey "y") (Utf8.encode "b")
    let s : Session := ⟨.ofRecords r, []⟩
    (isExempt (.named "x") (.named "y")).run s = (.ok true, s) := by
  intro z r s
  have hr : Readable s.records := ((Readable.empty.insert_zone z).insert_member "x" "a").insert_member "y" "b"
  obtain ⟨b, hb, hiff, -⟩ := exemption_decided s rfl hr (.named "x") (.named "y")
  have hx : resolved s.records (.named "x") = some z := by
    have hz : s.records.get? (zoneView.key (Utf8.encode "a")) = some z.encode := rfl
    have hm : memberValue s.records (.named "x") = some (Utf8.encode "a") := rfl
    rw [resolved, hm, Option.bind_some, zoneUnder, hz, Option.bind_some, z.decode_encode]
    rfl
  have hy : resolved s.records (.named "y") = none := rfl
  rw [hb, hiff.2 (.outgoing hx hy rfl)]

end ExemptZones.Registry
