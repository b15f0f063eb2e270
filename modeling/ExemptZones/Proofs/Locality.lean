import ExemptZones.Proofs.Removal

/-
Which decisions the changes of one zone can alter. Whatever they do to the zone and to its members, the records that
are not about it stay: without the zone the registry is the same before and after. And a party that is not a member of
the zone is resolved from those other records alone.

`SameApart.makes`: what edits of a zone leave alone.
`SameApart.resolved_eq`: so a party outside the zone is resolved as before.
`decisions_local`: decisions between such parties, over any run of changes of the zone.
-/

namespace ExemptZones.Registry

open ExemptZones.Action

-- The bytes of a zone's record play no part here.
attribute [local irreducible] Zone.encode

/-! ## Changes of one zone -/

/-- The zone that an edit is about. -/
def Edit.zone : Edit → Text
  | .addZone z | .modifyZone z => z.name
  | .removeZone name => name
  | .addAddress zone _ | .removeAddress zone _ => zone

/-- Every edit that the change is made of is about the zone. -/
def Change.Targets (zone : Text) (c : Change) : Prop :=
  ∀ e ∈ c.edits, e.zone = zone

theorem Change.targets_edit (e : Edit) : (Change.edit e).Targets e.zone := by
  simp [Change.Targets, Change.edits]

theorem Change.targets_message (m : Message) : (Change.message m).Targets m.zone := by
  cases m <;> simp [Change.Targets, Change.edits, Edit.zone, Message.zone, ZoneChange.toZone]

/-! ## What they leave alone -/

section Records

variable {r r' : Records} {zone : String}

/-- Two registries agree on what is not about a zone if they have the same of those records. -/
theorem dropZone_eq_iff : dropZone zone r' = dropZone zone r ↔
    ∀ k v, concerns zone (k, v) = false → (r'.get? k = some v ↔ r.get? k = some v) := by
  constructor
  · intro h k v hc
    have hr : (dropZone zone r).get? k = some v ↔ r.get? k = some v ∧ concerns zone (k, v) = false := get?_dropZone_iff
    rw [← h, get?_dropZone_iff, and_iff_left hc, and_iff_left hc] at hr
    exact hr
  · intro h
    refine Records.eq_of_get? fun k => Option.ext fun v => ?_
    rw [get?_dropZone_iff, get?_dropZone_iff]
    exact and_congr_left (h k v)

theorem concerns_zoneKey (v : Bytes) : concerns zone (zoneKey zone, v) = true :=
  concerns_iff.2 (.inl rfl)

theorem concerns_memberKey (a : String) : concerns zone (memberKey a, Utf8.encode zone) = true :=
  concerns_iff.2 (.inr ⟨_, rfl, rfl⟩)

/-- A record put in a place where there was none, or one that was about the zone too. -/
theorem dropZone_insert {k v : Bytes} (hv : concerns zone (k, v) = true)
    (hr : ∀ b, r.get? k = some b → concerns zone (k, b) = true) : dropZone zone (r.insert k v) = dropZone zone r := by
  refine dropZone_eq_iff.2 fun k' v' hc => ?_
  by_cases hk : k = k'
  · subst hk
    have hne : v ≠ v' := fun he => by rw [he, hc] at hv; cases hv
    have hno : r.get? k ≠ some v' := fun he => by rw [hr v' he] at hc; cases hc
    rw [Records.get?_insert, if_pos rfl, Option.some.injEq]
    exact iff_of_false hne hno
  · rw [Records.get?_insert, if_neg hk]

theorem dropZone_erase {k : Bytes} (hr : ∀ b, r.get? k = some b → concerns zone (k, b) = true) :
    dropZone zone (r.erase k) = dropZone zone r := by
  refine dropZone_eq_iff.2 fun k' v' hc => ?_
  by_cases hk : k = k'
  · subst hk
    have hno : r.get? k ≠ some v' := fun he => by rw [hr v' he] at hc; cases hc
    rw [Records.get?_erase, if_pos rfl]
    exact iff_of_false (Option.some_ne_none v').symm hno
  · rw [Records.get?_erase, if_neg hk]

theorem dropZone_dropZone : dropZone zone (dropZone zone r) = dropZone zone r := by
  simp only [dropZone, Records.keep_keep, Bool.and_self]

/-- **An edit of a zone leaves the records that are not about it as they are.** The zone has a name that can be
stored. -/
theorem Edit.Makes.dropZone_eq {hrp : String} {e : Edit} (h : e.Makes hrp r r') :
    ∃ name : String, e.zone = name ∧ dropZone name r' = dropZone name r := by
  cases h with
  | addZone _ => exact ⟨_, rfl, dropZone_insert (concerns_zoneKey _) fun b _ => concerns_zoneKey b⟩
  | modifyZone _ _ => exact ⟨_, rfl, dropZone_insert (concerns_zoneKey _) fun b _ => concerns_zoneKey b⟩
  | removeZone _ => exact ⟨_, rfl, dropZone_dropZone⟩
  | addAddress _ _ free =>
    -- The address had no membership that this one could replace.
    exact ⟨_, rfl, dropZone_insert (concerns_memberKey _) fun b hb => by rw [free] at hb; cases hb⟩
  | keepAddress _ _ _ => exact ⟨_, rfl, rfl⟩
  | removeAddress _ _ bound =>
    refine ⟨_, rfl, dropZone_erase fun b hb => ?_⟩
    rw [bound] at hb
    cases hb
    exact concerns_memberKey _

/-- Nothing changed but records that are about the zone. -/
def SameApart (zone : Text) (r r' : Records) : Prop :=
  r' = r ∨ ∃ name : String, zone = name ∧ dropZone name r' = dropZone name r

theorem SameApart.makes {hrp : String} {e : Edit} {r₀ : Records} (h : SameApart e.zone r₀ r) (hm : e.Makes hrp r r') :
    SameApart e.zone r₀ r' := by
  obtain ⟨name, hn, hr⟩ := hm.dropZone_eq
  refine .inr ⟨name, hn, ?_⟩
  rcases h with rfl | ⟨name', hn', hr'⟩
  · exact hr
  · obtain rfl : name = name' := Text.plain.inj (hn.symm.trans hn')
    exact hr.trans hr'

/-! ## Parties outside the zone -/

variable {p : Party}

theorem memberValue_dropZone (h : memberValue r p ≠ some (Utf8.encode zone)) :
    memberValue (dropZone zone r) p = memberValue r p := by
  cases p with
  | unspecified | unencodable => rfl
  | named a =>
    cases ha : a.isEmpty with
    | true => simp [memberValue, ha]
    | false =>
      rw [memberValue_named ha] at h ⊢
      rw [memberValue_named ha]
      refine Option.ext fun v => ?_
      rw [get?_dropZone_eq_some_iff]
      refine and_iff_left_of_imp fun hv => ⟨(zoneView_key_ne_memberView_key _ _).symm, ?_⟩
      rintro ⟨-, -, rfl⟩
      exact h hv

theorem zoneUnder_dropZone {m : Bytes} (h : m ≠ Utf8.encode zone) : zoneUnder (dropZone zone r) m = zoneUnder r m := by
  have hget : (dropZone zone r).get? (zoneView.key m) = r.get? (zoneView.key m) := by
    refine Option.ext fun v => ?_
    rw [get?_dropZone_eq_some_iff]
    refine and_iff_left ⟨fun he => h (View.key_injective he), ?_⟩
    rintro ⟨a, ha, -⟩
    exact zoneView_key_ne_memberView_key _ _ ha
  rw [zoneUnder, zoneUnder, hget]

/-- **A party outside a zone is resolved from the records that are not about the zone.** -/
theorem resolved_dropZone (h : memberValue r p ≠ some (Utf8.encode zone)) :
    resolved (dropZone zone r) p = resolved r p := by
  rw [resolved, resolved, memberValue_dropZone h]
  cases hm : memberValue r p with
  | none => rfl
  | some m => exact zoneUnder_dropZone fun he => h (he ▸ hm)

/-- The party is not a member of the zone. -/
def Outside (zone : Text) (r : Records) (p : Party) : Prop :=
  ∀ name : String, zone = name → memberValue r p ≠ some (Utf8.encode name)

theorem SameApart.resolved_eq {zone : Text} (h : SameApart zone r r') (hr : Outside zone r p) (hr' : Outside zone r' p) :
    resolved r' p = resolved r p := by
  rcases h with rfl | ⟨name, hn, h⟩
  · rfl
  · rw [← resolved_dropZone (hr' name hn), h, resolved_dropZone (hr name hn)]

end Records

/-! ## Runs -/

/-- A run of changes of one zone, in blocks or not, leaves the records that are not about it as they are. -/
theorem sameApart_run (cfg : Settings) {zone : Text} (script : Script {c : Change // c.Targets zone}) {s : Session}
    (hs : s.Ready) : SameApart zone s.records ((script.run fun c => c.1.act cfg).run s).2.records := by
  have hedit : ∀ (c : {c : Change // c.Targets zone}), ∀ e ∈ c.1.edits, ∀ r r', e.Makes cfg.addressPrefix r r' →
      SameApart zone s.records r → SameApart zone s.records r' := fun c e he r r' hm hr => by
    obtain rfl := c.2 e he
    exact hr.makes hm
  exact (script.upholdsFrom (fun c _ ht => Change.upholdsFrom (hedit c) ht) (.beginning hs (.inl rfl))).2.1.working

/-- **Decisions are local.** Changes of one zone, one after the other, in blocks or not, whether they succeed or fail,
alter no decision between two parties that are not members of the zone before and after. -/
theorem decisions_local (cfg : Settings) (s t : Session) (h : Reachable cfg s) (zone : Text)
    (script : Script {c : Change // c.Targets zone}) (x : Except Failure Unit)
    (hrun : (script.run fun c => c.1.act cfg).run s = (x, t)) (p q : Party)
    (hs : ∀ side ∈ [p, q], Outside zone s.records side) (ht : ∀ side ∈ [p, q], Outside zone t.records side) :
    ∃ b, (isExempt p q).run s = (.ok b, s) ∧ (isExempt p q).run t = (.ok b, t) := by
  have hup := h.upholds
  have hend := (script.upholds (fun c => Change.upholds cfg c.1) hup).2.1
  have hsame := sameApart_run cfg script hup.toReady
  rw [hrun] at hend hsame
  have hresolved : ∀ side ∈ [p, q], resolved t.records side = resolved s.records side := fun side hside =>
    hsame.resolved_eq (hs side hside) (ht side hside)
  refine ⟨_, run_isExempt_eq hup.live hup.working.readable p q, ?_⟩
  rw [run_isExempt_eq hend.live hend.working.readable, hresolved p (by simp), hresolved q (by simp)]

/-- In one block a zone gets other flags and a member, which leaves it again, and is removed with another member. A
zone whose name begins like that of the one removed keeps its flags. -/
theorem decisions_local_extended :
    let a := "terra1qg5kk8l9"
    let b := "terra1qq2zjtpc"
    let c := "terra1qslr6n5t"
    let s := ((importState {} ⟨[⟨{}, "z"⟩, ⟨{ outgoing := true }, "zz"⟩], [⟨"z", [a]⟩, ⟨"zz", [b]⟩]⟩).run start).2
    let changes : List {c : Change // c.Targets "z"} :=
      [⟨_, Change.targets_message (.modifyZone ⟨⟨true, true, true⟩, "", "z", [c]⟩)⟩,
        ⟨_, Change.targets_edit (.removeAddress "z" c)⟩, ⟨_, Change.targets_edit (.removeZone "z")⟩]
    let script := Script.block (changes.foldr (fun i w => .seq (.step i) w) .done)
    let t := ((script.run fun c => c.1.act {}).run s).2
    registered t.records "z" = false ∧ (isExempt (.named b) (.named c)).run t = (.ok true, t) := by
  intro a b c s changes script t
  have hr : Reachable {} s := ⟨.step (.importState _), List.mem_cons_of_mem _ List.mem_cons_self⟩
  have hs : ∀ side ∈ [Party.named b, .named c], memberValue s.records side ≠ some (Utf8.encode "z") := by decide +kernel
  have ht : ∀ side ∈ [Party.named b, .named c], memberValue t.records side ≠ some (Utf8.encode "z") := by decide +kernel
  have hout : ∀ {r side}, memberValue r side ≠ some (Utf8.encode "z") → Outside "z" r side := fun h name hn =>
    Text.plain.inj hn ▸ h
  obtain ⟨x, hx, ht⟩ := decisions_local {} s t hr "z" script _ (Prod.eta _).symm (.named b) (.named c)
    (fun side h => hout (hs side h)) fun side h => hout (ht side h)
  have hb : ((isExempt (.named b) (.named c)).run s).1.toOption = some true := by decide +kernel
  rw [hx] at hb
  obtain rfl : x = true := Option.some.inj hb
  exact ⟨by decide +kernel, ht⟩

end ExemptZones.Registry
