import ExemptZones.Proofs.LegacyMigration

/-
Many addresses in one message. They join a zone or leave it one after the other, each checked against records that
the ones before it have changed, and the message takes effect as a whole or not at all. What comes of it is said of
the records before the message alone: an address that joins changes nothing for those after it, and one that leaves
only that it cannot leave once more.

`Course`: edits for one address after the other, and when one of them is refused.
`BatchEnds`: what a message made of such edits comes to.
-/

namespace ExemptZones.Registry

open ExemptZones.Action

-- The bytes of a zone's record play no part here, only that they read back.
attribute [local irreducible] Zone.encode

/-! ## Edits of one kind -/

/-- Edits that are made for one item after the other, an address each. They go through for a good list, and leave the
records `after` it; after a good list an item is refused for a cause, or the list is still good with it. -/
structure Course {ι : Type} (cfg : Settings) (edit : ι → Edit) (after : List ι → Records) (good : List ι → Prop)
    (refuses : List ι → ι → Cause → Prop) : Prop where
  nil : good []
  step : ∀ xs a, good xs →
    (good (xs ++ [a]) ∧ ∃ es, (edit a).plan cfg (after xs) = .ok (after (xs ++ [a]), es)) ∨
    ∃ c, refuses xs a c ∧ (edit a).plan cfg (after xs) = .error (.registry c)
  stops : ∀ xs a ys c, refuses xs a c → ¬ good (xs ++ a :: ys)
  cause : ∀ xs a c c', refuses xs a c → refuses xs a c' → c = c'

/-- The end of a message about the items `xs`, outside a block. It succeeds if the list is good, and leaves the
records that `left` looks up. Otherwise it fails at the first item that is refused after those before it, and
leaves the store as it was. -/
structure BatchEnds {ι : Type} (good : List ι → Prop) (refuses : List ι → ι → Cause → Prop)
    (left : Bytes → Option Bytes) (s : Session) (xs : List ι) (p : Except Failure Unit × Session) : Prop where
  ok_iff : p.1 = .ok () ↔ good xs
  looks : p.1 = .ok () → ∀ k, p.2.records.get? k = left k
  kept : p.1 = .ok () → p.2.store = { s.store with working := p.2.records, committed := p.2.records }
  refused : ∀ f, p.1 = .error f → ∃ before a rest c, xs = before ++ a :: rest ∧ good before ∧ refuses before a c ∧
    f = .registry c
  undone : ∀ f, p.1 = .error f → p.2.store = s.store

section Course

variable {ι : Type} {cfg : Settings} {edit : ι → Edit} {after : List ι → Records} {good : List ι → Prop}
  {refuses : List ι → ι → Cause → Prop}

namespace Course

/-- The edits go through, or up to the first that is refused. -/
theorem batch_ends (h : Course cfg edit after good refuses) (ys : List ι) {xs : List ι} (hxs : good xs) :
    (good (xs ++ ys) ∧ Edit.batch cfg (ys.map edit) (after xs) = (.ok (), after (xs ++ ys))) ∨
    ∃ before a rest c, xs ++ ys = before ++ a :: rest ∧ good before ∧ refuses before a c ∧
      (Edit.batch cfg (ys.map edit) (after xs)).1 = .error (.registry c) := by
  induction ys generalizing xs with
  | nil => exact .inl ⟨by simpa using hxs, by simp [Edit.batch]⟩
  | cons a ys ih =>
    rw [List.map_cons]
    rcases h.step xs a hxs with ⟨hgood, es, hp⟩ | ⟨c, hc, hp⟩
    · have hi := ih hgood
      rw [List.append_assoc, List.singleton_append] at hi
      rw [Edit.batch_cons_ok hp]
      exact hi
    · exact .inr ⟨xs, a, ys, c, rfl, hxs, hc, by rw [Edit.batch_cons_error hp]⟩

/-- There is one item at which a list is refused, and one cause. -/
theorem refused_unique (h : Course cfg edit after good refuses) {xs ys xs' ys' : List ι} {a a' : ι}
    {c c' : Cause} (he : xs ++ a :: ys = xs' ++ a' :: ys') (hgood : good xs) (hc : refuses xs a c)
    (hgood' : good xs') (hc' : refuses xs' a' c') : c = c' := by
  rcases List.append_eq_append_iff.1 he with ⟨zs, rfl, hz⟩ | ⟨zs, rfl, hz⟩
  · cases zs with
    | nil =>
      obtain ⟨rfl, -⟩ := List.cons.inj hz
      rw [List.append_nil] at hc'
      exact h.cause _ _ _ _ hc hc'
    | cons z zs =>
      obtain ⟨rfl, -⟩ := List.cons.inj hz
      exact absurd hgood' (h.stops _ _ _ _ hc)
  · cases zs with
    | nil =>
      obtain ⟨rfl, -⟩ := List.cons.inj hz
      rw [List.append_nil] at hc
      exact h.cause _ _ _ _ hc hc'
    | cons z zs =>
      obtain ⟨rfl, -⟩ := List.cons.inj hz
      exact absurd hgood (h.stops _ _ _ _ hc')

variable {left : Bytes → Option Bytes} {s : Session} {xs : List ι}

/-- A change that comes down to such edits ends as they do. -/
theorem ends (h : Course cfg edit after good refuses) (hs : s.Ready) (hd : s.store.depth = 0) {c : Change}
    (hc : c.result cfg s.records = Edit.batch cfg (xs.map edit) (after []))
    (hleft : ∀ k, (after xs).get? k = left k) : BatchEnds good refuses left s xs ((c.act cfg).run s) := by
  obtain ⟨es, he⟩ := c.does cfg hs
  rw [he, hc]
  rcases h.batch_ends xs h.nil with ⟨hgood, hb⟩ | ⟨before, a, rest, c, hxs, hgood, hr, hb⟩
  · rw [List.nil_append] at hgood hb
    rw [hb]
    refine ⟨by simpa using hgood, fun _ k => ?_, fun _ => ?_, by rintro _ ⟨⟩, by rintro _ ⟨⟩⟩
    · simpa [Session.kept] using hleft k
    · simp only [Session.kept, Session.write_of_closed hd]
      rfl
  · rw [List.nil_append] at hxs
    generalize Edit.batch cfg (xs.map edit) (after []) = p at hb
    obtain ⟨x, r⟩ := p
    obtain rfl : x = .error (.registry c) := hb
    have hk : s.kept (.error (.registry c) : Except Failure Unit) r = s.records := by
      simp [Session.kept, Store.inTransaction, hd]
    have hno : ¬ good xs := hxs ▸ h.stops before a rest c hr
    rw [hk, hs.write_records]
    refine ⟨by simpa using hno, by rintro ⟨⟩, by rintro ⟨⟩, ?_, fun _ _ => rfl⟩
    rintro _ ⟨⟩
    exact ⟨before, a, rest, c, hxs, hgood, hr, rfl⟩

end Course

namespace BatchEnds

variable {left left' : Bytes → Option Bytes} {s : Session} {xs ys : List ι}
  {p q : Except Failure Unit × Session}

/-- Two messages that go through for the same lists fail alike. -/
theorem end_eq (hcourse : Course cfg edit after good refuses) (hp : BatchEnds good refuses left s xs p)
    (hq : BatchEnds good refuses left' s xs q) : p.1 = q.1 := by
  cases hx : p.1 with
  | ok _ => exact (hq.ok_iff.2 (hp.ok_iff.1 hx)).symm
  | error f =>
    cases hy : q.1 with
    | ok _ =>
      have hok := hp.ok_iff.2 (hq.ok_iff.1 hy)
      rw [hx] at hok
      cases hok
    | error g =>
      obtain ⟨before, a, rest, c, he, hgood, hr, rfl⟩ := hp.refused f hx
      obtain ⟨before', a', rest', c', he', hgood', hr', rfl⟩ := hq.refused g hy
      rw [hcourse.refused_unique (he.symm.trans he') hgood hr hgood' hr']

/-- Two messages whose lists are both good or both not, and that leave the same records, leave the same store. -/
theorem store_eq (hp : BatchEnds good refuses left s xs p) (hq : BatchEnds good refuses left s ys q)
    (h : good xs ↔ good ys) : p.2.store = q.2.store := by
  cases hx : p.1 with
  | ok _ =>
    have hy := hq.ok_iff.2 (h.1 (hp.ok_iff.1 hx))
    have hr : p.2.records = q.2.records := Records.eq_of_get? fun k => (hp.looks hx k).trans (hq.looks hy k).symm
    rw [hp.kept hx, hq.kept hy, hr]
  | error f =>
    cases hy : q.1 with
    | ok _ =>
      have hok := hp.ok_iff.2 (h.2 (hq.ok_iff.1 hy))
      rw [hx] at hok
      cases hok
    | error g => rw [hp.undone f hx, hq.undone g hy]

end BatchEnds

end Course

/-! ## Many records -/

theorem zoneKey_not_mem_map (xs : List String) (name : String) : zoneKey name ∉ xs.map memberKey := by
  intro h
  obtain ⟨a, -, ha⟩ := List.mem_map.1 h
  exact zoneView_key_ne_memberView_key _ _ ha.symm

/-- Whether a zone is registered depends on its own record. -/
theorem registered_congr {r r' : Records} {name : String} (h : r'.get? (zoneKey name) = r.get? (zoneKey name)) :
    registered r' name = registered r name := by
  rw [registered, registered, h]

/-- The texts among some that can be stored. -/
def stored (xs : List Text) : List String :=
  xs.filterMap Text.plain?

theorem mem_stored {xs : List Text} {a : String} : a ∈ stored xs ↔ (a : Text) ∈ xs := by
  simp [stored, Text.plain?_eq_some_iff]

theorem stored_concat (xs : List Text) (a : String) : stored (xs ++ [(a : Text)]) = stored xs ++ [a] := by
  simp [stored, Text.plain?]

/-! ## Joining a zone -/

/-- A text that can join a zone: it is an address, and in no other zone. -/
inductive CanJoin (hrp : String) (r : Records) (zone : String) : Text → Prop where
  | intro {address : String} (valid : ∃ raw, Address.validate address hrp = .ok raw)
    (free : r.get? (memberKey address) = none ∨ r.get? (memberKey address) = some (Utf8.encode zone)) :
    CanJoin hrp r zone address

/-- Why a text cannot join a zone. -/
inductive CannotJoin (hrp : String) (r : Records) (zone : String) : Text → Cause → Prop where
  | malformed {address : Text} {fault : Address.Fault} (invalid : Address.validate address hrp = .error fault) :
    CannotJoin hrp r zone address (.invalidAddress address fault)
  | elsewhere {address current : String} {raw : Bytes} (valid : Address.validate address hrp = .ok raw)
    (bound : r.get? (memberKey address) = some (Utf8.encode current)) (other : current ≠ zone) :
    CannotJoin hrp r zone address (.alreadyAssociated address zone current)

section Join

variable {cfg : Settings} {hrp : String} {r r' : Records} {zone : String} {address : Text} {c c' : Cause}

theorem CannotJoin.not_canJoin (h : CannotJoin hrp r zone address c) : ¬ CanJoin hrp r zone address := by
  rintro ⟨⟨raw, hv⟩, hf⟩
  cases h with
  | malformed invalid => cases hv.symm.trans invalid
  | elsewhere valid bound other =>
    rcases hf with hf | hf
    · rw [bound] at hf
      cases hf
    · exact other (Utf8.encode_injective (Option.some.inj (bound.symm.trans hf)))

theorem CannotJoin.unique (h : CannotJoin hrp r zone address c) (h' : CannotJoin hrp r zone address c') : c = c' := by
  cases h with
  | malformed invalid =>
    cases h' with
    | malformed invalid' => cases invalid.symm.trans invalid'; rfl
    | elsewhere valid => cases invalid.symm.trans valid
  | elsewhere valid bound other =>
    cases h' with
    | malformed invalid => cases valid.symm.trans invalid
    | elsewhere valid' bound' other' =>
      rw [Utf8.encode_injective (Option.some.inj (bound.symm.trans bound'))]

theorem canJoin_or (hr : Readable r) (hrp zone : String) (address : Text) :
    CanJoin hrp r zone address ∨ ∃ c, CannotJoin hrp r zone address c := by
  cases hv : Address.validate address hrp with
  | error fault => exact .inr ⟨_, .malformed hv⟩
  | ok raw =>
    obtain ⟨address, rfl⟩ := eq_plain_of_validate hv
    cases hb : r.get? (memberKey address) with
    | none => exact .inl ⟨⟨raw, hv⟩, .inl hb⟩
    | some b =>
      obtain ⟨current, hn⟩ := Option.isSome_iff_exists.1 (hr.members _ b hb)
      obtain rfl := Utf8.decode?_eq_some_iff.1 hn
      by_cases hc : current = zone
      · exact .inl ⟨⟨raw, hv⟩, .inr (hc ▸ hb)⟩
      · exact .inr ⟨_, .elsewhere hv hb hc⟩

theorem CannotJoin.plan (h : CannotJoin cfg.addressPrefix r zone address c) (hz : registered r zone = true) :
    (Edit.addAddress zone address).plan cfg r = .error (.registry c) := by
  cases h with
  | malformed invalid => simp [Edit.plan, hz, invalid]
  | elsewhere valid bound other =>
    simp [Edit.plan, hz, valid, membership, isEmpty_of_validate valid, bound, Utf8.decode?_encode, other]

/-- Addresses that can join a zone do so one after the other, and none of them keeps another from it. The records they
are written to have the memberships of `r`. -/
theorem course_join (hr : Readable r) (hm : ∀ a, r'.get? (memberKey a) = r.get? (memberKey a))
    (hz : registered r' zone = true) :
    Course cfg (.addAddress zone) (fun xs => r'.insertAll memberRecord ((stored xs).map fun a => (a, zone)))
      (fun xs => ∀ a ∈ xs, CanJoin cfg.addressPrefix r zone a)
      (fun _ a c => CannotJoin cfg.addressPrefix r zone a c) where
  nil := nofun
  stops xs a ys c hc hgood := hc.not_canJoin (hgood a (by simp))
  cause _ _ _ _ h h' := h.unique h'
  step xs a hxs := by
    generalize hs : r'.insertAll memberRecord ((stored xs).map fun a => (a, zone)) = s
    have hget : ∀ k, s.get? k = if k ∈ (stored xs).map memberKey then some (Utf8.encode zone) else r'.get? k :=
      fun k => by rw [← hs, get?_insertAll_members]
    have hreg : registered s zone = true := by
      rw [registered_congr ((hget _).trans (if_neg (zoneKey_not_mem_map _ zone)))]
      exact hz
    have hlook : ∀ a : String, s.get? (memberKey a) =
        if (a : Text) ∈ xs then some (Utf8.encode zone) else r.get? (memberKey a) := fun a => by
      rw [hget]
      simp only [memberKey_mem_map, mem_stored, hm]
    rcases canJoin_or hr cfg.addressPrefix zone a with hj | ⟨c, hc⟩
    · obtain @⟨a, hv, hf⟩ := hj
      have hadmits : Admits cfg.addressPrefix s (a, zone) := by
        refine ⟨hreg, hv, fun b hb => ?_⟩
        rw [hlook] at hb
        split at hb
        · exact (Option.some.inj hb).symm
        · rcases hf with hf | hf
          · rw [hf] at hb; cases hb
          · exact Option.some.inj (hb.symm.trans hf)
      refine .inl ⟨fun b hb => ?_, Edit.plan_addAddress_eq_ok_iff.2 ⟨hadmits, ?_⟩⟩
      · rcases List.mem_append.1 hb with hb | hb
        · exact hxs b hb
        · rw [List.mem_singleton.1 hb]
          exact ⟨hv, hf⟩
      · rw [← hs, stored_concat]
        simp [Records.insertAll]
    · have hout : a ∉ xs := fun ha => hc.not_canJoin (hxs a ha)
      have hc' : CannotJoin cfg.addressPrefix s zone a c := by
        cases hc with
        | malformed invalid => exact .malformed invalid
        | elsewhere valid bound other => exact .elsewhere valid (((hlook _).trans (if_neg hout)).trans bound) other
      exact .inr ⟨c, hc, hc'.plan hreg⟩

end Join

/-! ## Leaving a zone -/

/-- A text that can leave a zone: it is an address, and in this very zone. -/
inductive CanLeave (hrp : String) (r : Records) (zone : String) : Text → Prop where
  | intro {address : String} (valid : ∃ raw, Address.validate address hrp = .ok raw)
    (member : r.get? (memberKey address) = some (Utf8.encode zone)) : CanLeave hrp r zone address

/-- Why a text cannot leave a zone after others have. -/
inductive CannotLeave (hrp : String) (r : Records) (zone : String) (earlier : List Text) : Text → Cause → Prop where
  | malformed {address : Text} {fault : Address.Fault} (invalid : Address.validate address hrp = .error fault) :
    CannotLeave hrp r zone earlier address (.notMember zone address (some fault))
  | absent {address : String} {raw : Bytes} (valid : Address.validate address hrp = .ok raw)
    (out : r.get? (memberKey address) ≠ some (Utf8.encode zone)) :
    CannotLeave hrp r zone earlier address (.notMember zone address none)
  | repeated {address : String} {raw : Bytes} (valid : Address.validate address hrp = .ok raw)
    (gone : (address : Text) ∈ earlier) : CannotLeave hrp r zone earlier address (.notMember zone address none)

section Leave

variable {cfg : Settings} {hrp : String} {r : Records} {zone : String} {address : Text} {xs ys : List Text}
  {c c' : Cause}

theorem CannotLeave.not_canLeave (h : CannotLeave hrp r zone xs address c) :
    ¬((xs ++ address :: ys).Nodup ∧ ∀ a ∈ xs ++ address :: ys, CanLeave hrp r zone a) := by
  rintro ⟨hnodup, hall⟩
  obtain ⟨⟨raw, hv⟩, hm⟩ := hall address (by simp)
  cases h with
  | malformed invalid => cases hv.symm.trans invalid
  | absent valid out => exact out hm
  | repeated valid gone => exact (List.nodup_append.1 hnodup).2.2 _ gone _ List.mem_cons_self rfl

theorem CannotLeave.unique (h : CannotLeave hrp r zone xs address c) (h' : CannotLeave hrp r zone xs address c') :
    c = c' := by
  cases h with
  | malformed invalid =>
    cases h' with
    | malformed invalid' => cases invalid.symm.trans invalid'; rfl
    | absent valid | repeated valid => cases invalid.symm.trans valid
  | absent valid | repeated valid =>
    cases h' with
    | malformed invalid => cases valid.symm.trans invalid
    | absent | repeated => rfl

theorem canLeave_or (hrp : String) (r : Records) (zone : String) (earlier : List Text) (address : Text) :
    (CanLeave hrp r zone address ∧ address ∉ earlier) ∨ ∃ c, CannotLeave hrp r zone earlier address c := by
  cases hv : Address.validate address hrp with
  | error fault => exact .inr ⟨_, .malformed hv⟩
  | ok raw =>
    obtain ⟨address, rfl⟩ := eq_plain_of_validate hv
    by_cases he : (address : Text) ∈ earlier
    · exact .inr ⟨_, .repeated hv he⟩
    · by_cases hm : r.get? (memberKey address) = some (Utf8.encode zone)
      · exact .inl ⟨⟨⟨raw, hv⟩, hm⟩, he⟩
      · exact .inr ⟨_, .absent hv hm⟩

theorem plan_removeAddress {address : String} {raw : Bytes} (hv : Address.validate address cfg.addressPrefix = .ok raw)
    (hm : r.get? (memberKey address) = some (Utf8.encode zone)) (hz : registered r zone = true) :
    (Edit.removeAddress zone address).plan cfg r =
      .ok (r.erase (memberKey address), [.removedAddress address zone]) := by
  simp [Edit.plan, hz, hv, membership, isEmpty_of_validate hv, hm, Utf8.decode?_encode]

/-- In records that the earlier addresses have left. -/
theorem CannotLeave.plan (h : CannotLeave cfg.addressPrefix r zone xs address c) (hr : Readable r)
    {s : Records} (hz : registered s zone = true)
    (hs : ∀ a : String, s.get? (memberKey a) = if (a : Text) ∈ xs then none else r.get? (memberKey a)) :
    (Edit.removeAddress zone address).plan cfg s = .error (.registry c) := by
  cases h with
  | malformed invalid => simp [Edit.plan, hz, invalid]
  | repeated valid gone =>
    have hnone := (hs _).trans (if_pos gone)
    simp [Edit.plan, hz, valid, membership, isEmpty_of_validate valid, hnone]
  | @absent address raw valid out =>
    have hne := isEmpty_of_validate valid
    have hout : s.get? (memberKey address) ≠ some (Utf8.encode zone) := by
      rw [hs]
      split
      · exact (Option.some_ne_none _).symm
      · exact out
    cases hb : s.get? (memberKey address) with
    | none => simp [Edit.plan, hz, valid, membership, hne, hb]
    | some b =>
      have hrb : r.get? (memberKey address) = some b := by
        rw [hs] at hb
        split at hb
        · cases hb
        · exact hb
      obtain ⟨current, hn⟩ := Option.isSome_iff_exists.1 (hr.members _ b hrb)
      obtain rfl := Utf8.decode?_eq_some_iff.1 hn
      have hc : current ≠ zone := fun he => hout (he ▸ hb)
      simp [Edit.plan, hz, valid, membership, hne, hb, Utf8.decode?_encode, hc]

/-- Members of a zone leave it one after the other, each of them once. -/
theorem course_leave (hr : Readable r) (hz : registered r zone = true) :
    Course cfg (.removeAddress zone) (fun xs => ((stored xs).map memberKey).foldl Records.erase r)
      (fun xs => xs.Nodup ∧ ∀ a ∈ xs, CanLeave cfg.addressPrefix r zone a)
      (CannotLeave cfg.addressPrefix r zone) where
  nil := ⟨List.nodup_nil, nofun⟩
  stops xs a ys c hc := hc.not_canLeave
  cause _ _ _ _ h h' := h.unique h'
  step xs a hxs := by
    have hget := Records.get?_foldl_erase r ((stored xs).map memberKey)
    have hreg : registered (((stored xs).map memberKey).foldl Records.erase r) zone = true := by
      rw [registered_congr ((hget _).trans (if_neg (zoneKey_not_mem_map _ zone)))]
      exact hz
    have hlook : ∀ a : String, (((stored xs).map memberKey).foldl Records.erase r).get? (memberKey a) =
        if (a : Text) ∈ xs then none else r.get? (memberKey a) := fun a => by
      rw [hget]
      simp only [memberKey_mem_map, mem_stored]
    rcases canLeave_or cfg.addressPrefix r zone xs a with ⟨ha, hout⟩ | ⟨c, hc⟩
    · obtain @⟨a, ⟨raw, hv⟩, hm⟩ := ha
      have hp := plan_removeAddress hv (((hlook a).trans (if_neg hout)).trans hm) hreg
      refine .inl ⟨⟨?_, ?_⟩, [.removedAddress a zone], ?_⟩
      · exact List.nodup_append_comm.1 (List.nodup_cons.2 ⟨hout, hxs.1⟩)
      · have ha : CanLeave cfg.addressPrefix r zone a := ⟨⟨raw, hv⟩, hm⟩
        simpa [or_imp, forall_and] using ⟨hxs.2, ha⟩
      · rw [hp, stored_concat, List.map_append, List.foldl_append]
        rfl
    · exact .inr ⟨c, hc, hc.plan hr hreg hlook⟩

end Leave

/-! ## Messages of the authority -/

theorem Change.result_message {cfg : Settings} {m : Message} (ha : m.authority = cfg.authority)
    (hn : m.zone.isEmpty = false) (r : Records) : result cfg (.message m) r = Edit.batch cfg (edits (.message m)) r := by
  simp [result, check, ha, hn]

theorem isEmpty_of_registered {r : Records} {zone : String} (h : registered r zone = true) : zone.isEmpty = false := by
  rw [registered, Bool.and_eq_true] at h
  simpa using h.1

/-- A message whose first edit fails leaves the store as it was. -/
theorem run_of_plan_error {cfg : Settings} {s : Session} (hs : s.Ready) {m : Message} (ha : m.authority = cfg.authority)
    (hn : m.zone.isEmpty = false) {e : Edit} {es : List Edit} (he : Change.edits (.message m) = e :: es) {f : Failure}
    (hp : e.plan cfg s.records = .error f) :
    ((handle cfg m).run s).1 = .error f ∧ ((handle cfg m).run s).2.store = s.store := by
  obtain ⟨log, hrun⟩ := (Change.message m).does cfg hs
  rw [Change.result_message ha hn, he, Edit.batch_cons_error hp, s.kept_error, hs.write_records] at hrun
  rw [show (handle cfg m).run s = _ from hrun]
  exact ⟨rfl, rfl⟩

section Messages

variable {cfg : Settings} {s : Session} {zone : String}

theorem addAddresses_ends (h : s.Upholds (Sound cfg.addressPrefix)) (hd : s.store.depth = 0)
    (hz : registered s.records zone = true) (xs : List Text) :
    BatchEnds (fun ys => ∀ a ∈ ys, CanJoin cfg.addressPrefix s.records zone a)
      (fun _ a c => CannotJoin cfg.addressPrefix s.records zone a c)
      (fun k => if k ∈ (stored xs).map memberKey then some (Utf8.encode zone) else s.records.get? k) s xs
      ((handle cfg (.addAddresses ⟨cfg.authority, zone, xs⟩)).run s) :=
  (course_join h.working.readable (fun _ => rfl) hz).ends h.toReady hd (c := .message (.addAddresses _))
    (Change.result_message (m := .addAddresses ⟨cfg.authority, zone, xs⟩) rfl (isEmpty_of_registered hz) _)
    (get?_insertAll_members _ _ (stored xs))

theorem modifyZone_ends (h : s.Upholds (Sound cfg.addressPrefix)) (hd : s.store.depth = 0)
    (hz : registered s.records zone = true) (f : Flags) (xs : List Text) :
    BatchEnds (fun ys => ∀ a ∈ ys, CanJoin cfg.addressPrefix s.records zone a)
      (fun _ a c => CannotJoin cfg.addressPrefix s.records zone a c)
      (fun k => if k ∈ (stored xs).map memberKey then some (Utf8.encode zone)
        else if k = zoneKey zone then some (Zone.encode ⟨f, zone⟩) else s.records.get? k) s xs
      ((handle cfg (.modifyZone ⟨f, cfg.authority, zone, xs⟩)).run s) := by
  have hn := isEmpty_of_registered hz
  have hget := s.records.get?_insert (zoneKey zone) (Zone.encode ⟨f, zone⟩)
  have hm : ∀ a, (s.records.insert (zoneKey zone) (Zone.encode ⟨f, zone⟩)).get? (memberKey a) =
      s.records.get? (memberKey a) := fun a => by
    have hne : zoneKey zone ≠ memberKey a := zoneView_key_ne_memberView_key _ _
    rw [hget, if_neg hne]
  have hz' : registered (s.records.insert (zoneKey zone) (Zone.encode ⟨f, zone⟩)) zone = true := by
    simp only [registered, hn, hget, if_true, Option.isSome_some, Bool.not_false, Bool.and_true]
  have hp : (Edit.modifyZone ⟨f, zone⟩).plan cfg s.records =
      .ok (s.records.insert (zoneKey zone) (Zone.encode ⟨f, zone⟩), [.modifiedZone zone]) := by
    simp [Edit.plan, hn, hz, ZoneDraft.zone?, Text.plain?]
  refine (course_join h.working.readable hm hz').ends h.toReady hd (c := .message (.modifyZone _)) ?_ fun k => ?_
  · rw [Change.result_message (m := .modifyZone ⟨f, cfg.authority, zone, xs⟩) rfl hn]
    exact Edit.batch_cons_ok hp _
  · rw [get?_insertAll_members, hget]
    simp only [eq_comm]

/-- Without addresses there is nothing to add. -/
theorem addAddresses_nil (hs : s.Ready) {zone : Text} (hn : zone.isEmpty = false) :
    ((handle cfg (.addAddresses ⟨cfg.authority, zone, []⟩)).run s).1 = .ok () ∧
      ((handle cfg (.addAddresses ⟨cfg.authority, zone, []⟩)).run s).2.store = s.store := by
  obtain ⟨log, hrun⟩ := (Change.message (.addAddresses ⟨cfg.authority, zone, []⟩)).does cfg hs
  rw [Change.result_message (m := .addAddresses ⟨cfg.authority, zone, []⟩) rfl hn] at hrun
  have hstore : (s.write (s.kept (.ok () : Except Failure Unit) s.records)).store = s.store :=
    congrArg Session.store hs.write_records
  rw [show (handle cfg (.addAddresses ⟨cfg.authority, zone, []⟩)).run s = _ from hrun]
  exact ⟨rfl, hstore⟩

/-- To a zone that is not there nothing can be added but no addresses. -/
theorem addAddresses_absent (hs : s.Ready) (hn : zone.isEmpty = false) (hz : registered s.records zone = false)
    (xs : List Text) :
    ((handle cfg (.addAddresses ⟨cfg.authority, zone, xs⟩)).run s).1 =
        (if xs = [] then .ok () else .error (.registry (.zoneNotFound zone))) ∧
      ((handle cfg (.addAddresses ⟨cfg.authority, zone, xs⟩)).run s).2.store = s.store := by
  cases xs with
  | nil => exact addAddresses_nil hs hn
  | cons a xs =>
    exact run_of_plan_error hs (m := .addAddresses ⟨cfg.authority, zone, a :: xs⟩) rfl hn rfl
      (by simp [Edit.plan, hz])

theorem modifyZone_absent (hs : s.Ready) (hn : zone.isEmpty = false) (hz : registered s.records zone = false) (f : Flags)
    (xs : List Text) :
    ((handle cfg (.modifyZone ⟨f, cfg.authority, zone, xs⟩)).run s).1 = .error (.registry (.zoneNotFound zone)) ∧
      ((handle cfg (.modifyZone ⟨f, cfg.authority, zone, xs⟩)).run s).2.store = s.store :=
  run_of_plan_error hs (m := .modifyZone ⟨f, cfg.authority, zone, xs⟩) rfl hn rfl
    (by simp [Edit.plan, ZoneChange.toZone, ZoneDraft.zone?, Text.plain?, hn, hz])

/-- A message about a zone whose name has no encoded form fails at its first edit. -/
theorem addAddresses_broken (hs : s.Ready) (b : Broken) (xs : List Text) :
    ((handle cfg (.addAddresses ⟨cfg.authority, .broken b, xs⟩)).run s).1 =
        (if xs = [] then .ok () else .error .unencodable) ∧
      ((handle cfg (.addAddresses ⟨cfg.authority, .broken b, xs⟩)).run s).2.store = s.store := by
  cases xs with
  | nil => exact addAddresses_nil hs rfl
  | cons a xs =>
    exact run_of_plan_error hs (m := .addAddresses ⟨cfg.authority, .broken b, a :: xs⟩) rfl rfl rfl rfl

theorem modifyZone_broken (hs : s.Ready) (b : Broken) (f : Flags) (xs : List Text) :
    ((handle cfg (.modifyZone ⟨f, cfg.authority, .broken b, xs⟩)).run s).1 = .error .unencodable ∧
      ((handle cfg (.modifyZone ⟨f, cfg.authority, .broken b, xs⟩)).run s).2.store = s.store :=
  run_of_plan_error hs (m := .modifyZone ⟨f, cfg.authority, .broken b, xs⟩) rfl rfl rfl rfl

end Messages

/-- **Adding addresses, exactly.** A message that adds addresses to a zone that is there succeeds if each address can
join it by itself, and then the store is the old one with these memberships; otherwise it fails at the first address
that cannot. So the order of the addresses and how often they come make no difference. The message that changes the
zone's flags adds addresses alike, and writes the zone's record besides. For a zone that is not there the first
message fails unless it has no addresses, and the second always: because the zone is not found, or because its name has
no encoded form by which it could be looked for. -/
theorem additions_exact (cfg : Settings) (s : Session) (h : Reachable cfg s) (hd : s.store.depth = 0) (f : Flags) :
    let add := fun zone xs => (handle cfg (.addAddresses ⟨cfg.authority, zone, xs⟩)).run s
    let modify := fun zone xs => (handle cfg (.modifyZone ⟨f, cfg.authority, zone, xs⟩)).run s
    let good := fun zone xs => ∀ a ∈ xs, CanJoin cfg.addressPrefix s.records zone a
    let refuses := fun zone (_ : List Text) a c => CannotJoin cfg.addressPrefix s.records zone a c
    (∀ zone : String, registered s.records zone = true → ∀ xs,
      BatchEnds (good zone) (refuses zone)
        (fun k => if k ∈ (stored xs).map memberKey then some (Utf8.encode zone) else s.records.get? k) s xs
        (add zone xs) ∧
      BatchEnds (good zone) (refuses zone)
        (fun k => if k ∈ (stored xs).map memberKey then some (Utf8.encode zone)
          else if k = zoneKey zone then some (Zone.encode ⟨f, zone⟩) else s.records.get? k) s xs (modify zone xs) ∧
      (modify zone xs).1 = (add zone xs).1 ∧
      ∀ ys, (∀ a, a ∈ ys ↔ a ∈ xs) →
        ((add zone ys).1 = .ok () ↔ (add zone xs).1 = .ok ()) ∧ (add zone ys).2.store = (add zone xs).2.store ∧
          (modify zone ys).2.store = (modify zone xs).2.store) ∧
    (∀ zone : String, zone ≠ "" → registered s.records zone = false → ∀ xs,
      (add zone xs).1 = (if xs = [] then .ok () else .error (.registry (.zoneNotFound zone))) ∧
      (add zone xs).2.store = s.store ∧
      (modify zone xs).1 = .error (.registry (.zoneNotFound zone)) ∧ (modify zone xs).2.store = s.store) ∧
    (∀ (b : Broken) (xs : List Text),
      (add (.broken b) xs).1 = (if xs = [] then .ok () else .error .unencodable) ∧
      (add (.broken b) xs).2.store = s.store ∧
      (modify (.broken b) xs).1 = .error .unencodable ∧ (modify (.broken b) xs).2.store = s.store) := by
  intro add modify good refuses
  have hup := h.upholds
  have hs := hup.toReady
  refine ⟨fun zone hz xs => ?_, fun zone hn hz xs => ?_, fun b xs => ?_⟩
  · have hadd := addAddresses_ends hup hd hz
    have hmodify := modifyZone_ends hup hd hz f
    have hcourse : Course cfg (.addAddress zone) _ (good zone) (refuses zone) :=
      course_join hup.working.readable (fun _ => rfl) hz
    refine ⟨hadd xs, hmodify xs, (hmodify xs).end_eq hcourse (hadd xs), fun ys hys => ?_⟩
    have hgood : good zone ys ↔ good zone xs := by simp only [good, hys]
    have hkeys : ∀ k, k ∈ (stored ys).map memberKey ↔ k ∈ (stored xs).map memberKey := fun k => by
      simp only [List.mem_map, mem_stored, hys]
    have ha := hadd ys
    have hm := hmodify ys
    simp only [hkeys] at ha hm
    exact ⟨ha.ok_iff.trans (hgood.trans (hadd xs).ok_iff.symm), ha.store_eq (hadd xs) hgood,
      hm.store_eq (hmodify xs) hgood⟩
  · have he : zone.isEmpty = false := by simpa using hn
    obtain ⟨hend, hstore⟩ : (add zone xs).1 = _ ∧ (add zone xs).2.store = s.store := addAddresses_absent hs he hz xs
    exact ⟨hend, hstore, modifyZone_absent hs he hz f xs⟩
  · obtain ⟨hend, hstore⟩ : (add (.broken b) xs).1 = _ ∧ (add (.broken b) xs).2.store = s.store :=
      addAddresses_broken hs b xs
    exact ⟨hend, hstore, modifyZone_broken hs b f xs⟩

/-- An address that comes twice, and one that is in another zone, before a text that is no address. -/
theorem additions_exact_bound :
    let cfg : Settings := {}
    let x := "terra1qypqx0kxuu8"
    let y := "terra1qslr6n5t"
    let s := ((importState cfg ⟨[⟨{}, "a"⟩, ⟨{}, "z"⟩], [⟨"a", [y]⟩]⟩).run start).2
    let add := fun zone xs => (handle cfg (.addAddresses ⟨cfg.authority, zone, xs⟩)).run s
    (add "z" [x, x]).1 = .ok () ∧ (add "z" [x, x]).2.store = (add "z" [x]).2.store ∧
      (add "z" [x, y, "?"]).1 = .error (.registry (.alreadyAssociated y "z" "a")) ∧
      (add "z" [x, y, "?"]).2.store = s.store ∧
      (add "w" [x]).1 = .error (.registry (.zoneNotFound "w")) := by
  intro cfg x y s add
  have hr : Reachable cfg s := ⟨.step (.importState _), List.mem_cons_of_mem _ List.mem_cons_self⟩
  obtain ⟨hexact, hmissing, -⟩ := additions_exact cfg s hr (by decide +kernel) {}
  have hz := hexact "z" (by decide +kernel)
  have hw := hmissing "w" (by decide) (by decide +kernel)
  have hok : (add "z" [x]).1 = .ok () := by decide +kernel
  have herror : (add "z" [x, y, "?"]).1 = .error (.registry (.alreadyAssociated y "z" "a")) := by decide +kernel
  obtain ⟨-, -, -, hsame⟩ := hz [x]
  obtain ⟨hend, hstore, -⟩ := hsame [x, x] (by simp)
  obtain ⟨hends, -⟩ := hz [x, y, "?"]
  obtain ⟨habsent, -⟩ := hw [x]
  rw [if_neg (by simp)] at habsent
  dsimp only [add] at hok herror hend hstore hends habsent ⊢
  exact ⟨hend.2 hok, hstore, herror, hends.undone _ herror, habsent⟩

/-- A text without an encoded form is the name of no zone. A message about it fails, but not because the zone is not
found. -/
theorem additions_unencodable :
    let half : Text := .broken ⟨[.half 0xd800], rfl⟩
    half ≠ "" ∧ ((handle {} (.modifyZone ⟨{}, "", half, []⟩)).run start).1 = .error .unencodable ∧
      ((handle {} (.addAddresses ⟨"", half, ["terra1qypqx0kxuu8"]⟩)).run start).1 = .error .unencodable := by
  decide +kernel

/-- **Removing addresses, exactly.** A message that removes addresses from a zone that is there succeeds if they are
pairwise different and each is a member of it, and then the store is the old one without these memberships; otherwise
it fails at the first address that is none, is not a member of the zone, or came before. -/
theorem removals_exact (cfg : Settings) (s : Session) (h : Reachable cfg s) (hd : s.store.depth = 0) (zone : String)
    (hz : registered s.records zone = true) (xs : List Text) :
    BatchEnds (fun ys => ys.Nodup ∧ ∀ a ∈ ys, CanLeave cfg.addressPrefix s.records zone a)
      (CannotLeave cfg.addressPrefix s.records zone)
      (fun k => if k ∈ (stored xs).map memberKey then none else s.records.get? k) s xs
      ((handle cfg (.removeAddresses ⟨cfg.authority, zone, xs⟩)).run s) := by
  have hup := h.upholds
  refine (course_leave hup.working.readable hz).ends hup.toReady hd
    (c := .message (.removeAddresses ⟨cfg.authority, zone, xs⟩)) ?_ (Records.get?_foldl_erase _ _)
  exact Change.result_message (m := .removeAddresses ⟨cfg.authority, zone, xs⟩) rfl (isEmpty_of_registered hz) _

/-- Two members of a zone, one of which comes twice. -/
theorem removals_exact_repeated :
    let cfg : Settings := {}
    let x := "terra1qypqx0kxuu8"
    let y := "terra1qslr6n5t"
    let s := ((importState cfg ⟨[⟨{}, "z"⟩], [⟨"z", [x, y]⟩]⟩).run start).2
    let remove := fun xs => (handle cfg (.removeAddresses ⟨cfg.authority, "z", xs⟩)).run s
    (remove [y, x]).1 = .ok () ∧ (remove [y, x]).2.records.get? (memberKey x) = none ∧
      (remove [y, x, y]).1 = .error (.registry (.notMember "z" y none)) ∧
      (remove [y, x, y]).2.store = s.store := by
  intro cfg x y s remove
  have hr : Reachable cfg s := ⟨.step (.importState _), List.mem_cons_of_mem _ List.mem_cons_self⟩
  have hexact := removals_exact cfg s hr (by decide +kernel) "z" (by decide +kernel)
  have hok : (remove [y, x]).1 = .ok () := by decide +kernel
  have herror : (remove [y, x, y]).1 = .error (.registry (.notMember "z" y none)) := by decide +kernel
  have hlook := (hexact [y, x]).looks hok (memberKey x)
  rw [if_pos (by simp [stored, Text.plain?])] at hlook
  dsimp only [remove] at hok herror ⊢
  exact ⟨hok, hlook, herror, (hexact [y, x, y]).undone _ herror⟩

end ExemptZones.Registry
