import ExemptZones.Proofs.Change
import ExemptZones.Proofs.Script

/-
What the changes of a registry keep true of its records: each is the record of a zone under the zone's
name, or that of a membership in a zone that is there.

`Sound.makes`: every edit keeps it. Edits that touch one record keep it since no zone's record goes away;
removing a zone takes its memberships with it.
`Sound.result`: so does every change, also one that fails half-way in a block.
`Reachable`: what a script of changes passes through, from an empty store on.
-/

namespace ExemptZones.Registry

/-- A record of a registry whose addresses have the readable part `hrp`. -/
inductive SoundRecord (hrp : String) (r : Records) : Record → Prop where
  | zone {z : Zone} (named : z.name ≠ "") : SoundRecord hrp r (zoneKey z.name, z.encode)
  | member {address zone : String} {raw : Bytes} (valid : Address.validate address hrp = .ok raw)
      (present : (r.get? (zoneKey zone)).isSome) : SoundRecord hrp r (memberKey address, Utf8.encode zone)

def Sound (hrp : String) (r : Records) : Prop :=
  ∀ e ∈ r.entries, SoundRecord hrp r e

section Sound

variable {hrp : String} {r r' : Records} {k v : Bytes} {e : Record}

theorem SoundRecord.eq (h : SoundRecord hrp r (k, v)) :
    (∃ z : Zone, z.name ≠ "" ∧ k = zoneKey z.name ∧ v = z.encode) ∨
      ∃ address zone : String, (∃ raw, Address.validate address hrp = .ok raw) ∧ (r.get? (zoneKey zone)).isSome ∧
        k = memberKey address ∧ v = Utf8.encode zone := by
  cases h with
  | zone named => exact .inl ⟨_, named, rfl, rfl⟩
  | member valid present => exact .inr ⟨_, _, ⟨_, valid⟩, present, rfl, rfl⟩

theorem Sound.empty : Sound hrp .empty := fun _ h => absurd h List.not_mem_nil

/-- A record stays sound as long as no zone goes away. -/
theorem SoundRecord.mono (h : SoundRecord hrp r e)
    (hr : ∀ zone, (r.get? (zoneKey zone)).isSome → (r'.get? (zoneKey zone)).isSome) : SoundRecord hrp r' e := by
  cases h with
  | zone named => exact .zone named
  | member valid present => exact .member valid (hr _ present)

theorem isSome_get?_insert (h : (r.get? k).isSome) (k' v' : Bytes) : ((r.insert k' v').get? k).isSome := by
  rw [Records.get?_insert]
  split
  · rfl
  · exact h

theorem Sound.insert (h : Sound hrp r) (hk : SoundRecord hrp (r.insert k v) (k, v)) :
    Sound hrp (r.insert k v) := by
  intro e he
  rcases Records.mem_insertInto he with rfl | he
  · exact hk
  · exact (h e he).mono fun zone hz => isSome_get?_insert hz k v

theorem isSome_of_registered {name : String} (h : registered r name = true) : (r.get? (zoneKey name)).isSome := by
  simp only [registered, Bool.and_eq_true] at h
  exact h.2

/-- No zone goes away with a membership. -/
theorem Sound.erase_member (h : Sound hrp r) (address : String) : Sound hrp (r.erase (memberKey address)) := by
  intro e he
  have hm : e ∈ r.entries := (List.mem_filter.1 he).1
  refine (h e hm).mono fun zone hz => ?_
  have hne : memberKey address ≠ zoneKey zone := (zoneView_key_ne_memberView_key _ _).symm
  rw [Records.get?_erase, if_neg hne]
  exact hz

/-- A zone goes away with every membership in it, and no other zone does. -/
theorem Sound.dropZone (h : Sound hrp r) (name : String) : Sound hrp (dropZone name r) := by
  intro e he
  obtain ⟨hm, hc⟩ := List.mem_filter.1 he
  rcases h e hm with named | ⟨valid, present⟩
  · exact .zone named
  · rename_i address zone raw
    refine .member valid ?_
    obtain ⟨b, hb⟩ := Option.isSome_iff_exists.1 present
    refine Option.isSome_iff_exists.2 ⟨b, ?_⟩
    have hne : zone ≠ name := by
      rintro rfl
      have hp : memberView.beginning.isPrefixOf (memberKey address) = true := View.isPrefixOf_iff.2 ⟨_, rfl⟩
      simp [concerns, hp] at hc
    have hp : memberView.beginning.isPrefixOf (zoneKey zone) = false := by
      rw [← Bool.not_eq_true, View.isPrefixOf_iff]
      rintro ⟨k, hk⟩
      exact zoneView_key_ne_memberView_key _ k hk
    rw [Registry.dropZone, Records.get?_keep_eq_some_iff]
    exact ⟨hb, by simp [concerns, hp, zoneKey_inj, hne]⟩

/-! ## Edits and changes -/

/-- **An edit keeps the records sound.** -/
theorem Sound.makes {e : Edit} (hm : e.Makes hrp r r') (h : Sound hrp r) : Sound hrp r' := by
  cases hm with
  | addZone named => exact h.insert (.zone named)
  | modifyZone named _ => exact h.insert (.zone named)
  | removeZone _ => exact h.dropZone _
  | addAddress there valid _ => exact h.insert (.member valid (isSome_get?_insert (isSome_of_registered there) _ _))
  | keepAddress _ _ _ => exact h
  | removeAddress _ _ _ => exact h.erase_member _

theorem Sound.result {cfg : Settings} (c : Change) (h : Sound cfg.addressPrefix r) :
    Sound cfg.addressPrefix (c.result cfg r).2 :=
  Change.result_keeps (fun _ _ _ _ hm => Sound.makes hm) h

end Sound

/-- What every edit of a change keeps, the change keeps, of the records committed and of those that stand now, in a
block or outside. -/
theorem Change.upholdsFrom {cfg : Settings} {P : Records → Prop} {c : Change}
    (h : ∀ e ∈ c.edits, ∀ r r', e.Makes cfg.addressPrefix r r' → P r → P r') {depth : Nat} {s : Session}
    (hs : s.UpholdsFrom depth P) :
    ((c.act cfg).run s).2.UpholdsFrom depth P ∧ ((c.act cfg).run s).2.store.depth = s.store.depth := by
  refine hs.of_does (c.does cfg hs.toReady) ?_
  unfold Session.kept
  split
  · exact c.result_keeps h hs.working
  · split
    · exact c.result_keeps h hs.working
    · exact hs.working

/-- A change keeps the records sound. -/
theorem Change.upholds (cfg : Settings) (c : Change) (s : Session) (hs : s.Upholds (Sound cfg.addressPrefix)) :
    ((c.act cfg).run s).2.Upholds (Sound cfg.addressPrefix) ∧
      ((c.act cfg).run s).2.store.depth = s.store.depth := by
  simp only [Session.upholds_iff] at hs ⊢
  exact Change.upholdsFrom (fun _ _ _ _ hm => Sound.makes hm) hs

/-! ## Reachable registries -/

/-- A store with nothing in it, and nothing logged. -/
def start : Session := ⟨.empty, []⟩

/-- The session is the first, or one that a script of changes passes through. -/
def Reachable (cfg : Settings) (s : Session) : Prop :=
  ∃ script : Script Change, s ∈ start :: script.states (Change.act cfg) start

theorem Reachable.upholds {cfg : Settings} {s : Session} (h : Reachable cfg s) :
    s.Upholds (Sound cfg.addressPrefix) := by
  have h₀ : start.Upholds (Sound cfg.addressPrefix) :=
    { live := rfl, settled := fun _ => rfl, committed := .empty, working := .empty }
  obtain ⟨script, hs⟩ := h
  rcases List.mem_cons.1 hs with rfl | hs
  · exact h₀
  · exact (script.upholds (Change.upholds cfg) h₀).1 s hs

/-- **Every reachable registry is sound**, as it stands and as committed. -/
theorem reachable_registry_sound (cfg : Settings) (s : Session) (h : Reachable cfg s) :
    Sound cfg.addressPrefix s.records ∧ Sound cfg.addressPrefix s.store.committed :=
  ⟨h.upholds.working, h.upholds.committed⟩

/-- A block in which an import fails half-way and the failure is caught: the zone it wrote stays. -/
theorem reachable_registry_sound_caught :
    let script : Script Change := .block (.seq (.step (.edit (.addZone ⟨{}, "a"⟩)))
      (.rescue (.step (.importState ⟨[⟨{}, "b"⟩, ⟨{}, ""⟩], []⟩)) fun _ => .done))
    let t := ((script.run (Change.act {})).run start).2
    t.records = (Records.empty.insert (zoneKey "a") (Zone.encode ⟨{}, "a"⟩)).insert (zoneKey "b")
        (Zone.encode ⟨{}, "b"⟩) ∧
      Sound "terra" t.records ∧ Sound "terra" t.store.committed := by
  intro script t
  exact ⟨rfl, reachable_registry_sound {} t ⟨script, script.end_mem_states start⟩⟩

end ExemptZones.Registry
