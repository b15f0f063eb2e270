import ExemptZones.Proofs.Change

/-
A database that takes nothing in, because it is gone or because another connection reads it. In the second case what is
written waits in the records as they stand. A block takes back what waits when it ends; a write outside a block is
refused, and what it wrote stays.

`Steady.bind`, `Steady.transaction`: this is kept by putting work together.
`Spares.change`: a change that opens a block leaves the store as it is.
-/

namespace ExemptZones

open ExemptZones.Action

section Leads

variable {α β : Type} {s s' s'' : Store}

/-- From the store `s` the work ends in `x` and leaves `s'`, whatever was logged before. -/
def Leads (a : Action α) (s : Store) (x : Except Failure α) (s' : Store) : Prop :=
  ∀ log, ∃ es, a.run ⟨s, log⟩ = (x, ⟨s', es ++ log⟩)

theorem Leads.bind_error {a : Action α} {f : Failure} (h : Leads a s (.error f) s') (k : α → Action β) :
    Leads (a >>= k) s (.error f) s' := fun log => by
  obtain ⟨es, he⟩ := h log
  exact ⟨es, by simp [he]⟩

theorem Leads.bind {a : Action α} {y : α} {k : α → Action β} {x : Except Failure β} (h : Leads a s (.ok y) s')
    (hk : Leads (k y) s' x s'') : Leads (a >>= k) s x s'' := fun log => by
  obtain ⟨es, he⟩ := h log
  obtain ⟨fs, hf⟩ := hk (es ++ log)
  exact ⟨fs ++ es, by simp [he, hf]⟩

end Leads

namespace Registry

/-- No block is open, and nothing that was written waits to be committed. -/
structure Quiet (s : Store) : Prop where
  closed : s.depth = 0
  settled : s.committed = s.working
  eased : s.link.eased = s.link

/-! ## A database that takes nothing in -/

/-- The database is gone, or another connection reads it. -/
structure Obstructed (s : Store) : Prop where
  link : s.link ≠ .live
  quiet : s.depth = 0 → Quiet s

/-- What was written to the first store waits in the second. -/
structure Waits (s s' : Store) : Prop where
  committed : s'.committed = s.committed
  depth : s'.depth = s.depth
  held : ∃ waiting, s.link = .held waiting
  waiting : s'.link = .held true

/-- The end of a write that the database did not take in. -/
def Refused {α : Type} (x : Except Failure α) : Prop :=
  ∃ operation, x = .error (.registry (.writeFailed operation Store.lockedText))

/-- The work leaves the store as it is, and ends in one way whatever was logged before. -/
def Spares {α : Type} (a : Action α) (s : Store) : Prop :=
  ∃ x, Leads a s x s

/-- On an obstructed store the work ends in one way whatever was logged before. It leaves the store as it is unless
something waits afterwards, and outside a block that comes of a write that was refused. -/
def Steady {α : Type} (a : Action α) : Prop :=
  ∀ s, Obstructed s →
    ∃ x s', (s' = s ∨ Waits s s' ∧ (s.depth = 0 → Refused x)) ∧ Leads a s x s'

section Obstructed

variable {α β : Type} {s s' s'' : Store}

theorem Waits.trans (h : Waits s s') (h' : Waits s' s'') : Waits s s'' :=
  ⟨h'.committed.trans h.committed, h'.depth.trans h.depth, h.held, h'.waiting⟩

theorem Waits.obstructed (h : Waits s s') (hd : s.depth ≠ 0) : Obstructed s' :=
  ⟨by simp [h.waiting], fun hd' => absurd (h.depth.symm.trans hd') hd⟩

/-! ### Work that leaves the store as it is -/

theorem Spares.pure (x : α) : Spares (Pure.pure x : Action α) s := ⟨.ok x, fun _ => ⟨[], rfl⟩⟩

theorem Spares.fail (f : Failure) : Spares (fail f : Action α) s := ⟨.error f, fun _ => ⟨[], rfl⟩⟩

theorem Spares.note (e : Log.Entry) : Spares (note e) s := ⟨.ok (), fun _ => ⟨[e], rfl⟩⟩

theorem Spares.bind {a : Action α} {k : α → Action β} (ha : Spares a s) (hk : ∀ x, Spares (k x) s) :
    Spares (a >>= k) s := by
  obtain ⟨x, hx⟩ := ha
  cases x with
  | error f => exact ⟨.error f, hx.bind_error k⟩
  | ok x =>
    obtain ⟨y, hy⟩ := hk x
    exact ⟨y, hx.bind hy⟩

theorem Spares.forM {ι : Type} {f : ι → Action Unit} (h : ∀ i, Spares (f i) s) (is : List ι) : Spares (is.forM f) s := by
  induction is with
  | nil => exact .pure ()
  | cons i is ih => exact (h i).bind fun _ => ih

theorem Spares.ofExcept (x : Except Failure α) : Spares (Action.ofExcept x) s := by
  cases x with
  | ok x => exact .pure x
  | error f => exact .fail f

theorem Spares.reach (lost : Cause) : Spares (Store.reach lost) s := by
  obtain ⟨c, w, d, l⟩ := s
  cases l with
  | live | held => exact ⟨.ok _, fun _ => ⟨[], rfl⟩⟩
  | broken => exact ⟨.error (.registry lost), fun _ => ⟨[], rfl⟩⟩
  | closed => exact ⟨.error .closed, fun _ => ⟨[], rfl⟩⟩

theorem Spares.get (v : View) (k : Bytes) : Spares (v.get k) s :=
  (Spares.reach _).bind fun _ => .pure _

theorem Spares.has (v : View) (k : Bytes) : Spares (v.has k) s :=
  (Spares.get v k).bind fun _ => .pure _

theorem Spares.scan (v : View) (start stop : Option Bytes) (reverse : Bool) :
    Spares (v.scan start stop reverse) s :=
  ((Spares.reach _).bind fun _ => .pure _).bind fun _ => .pure _

theorem Spares.encodable (t : Text) : Spares (encodable t) s := by
  cases t with
  | plain t => exact .pure t
  | broken b => exact .fail _

theorem Spares.requireZone (name : String) : Spares (requireZone name) s := by
  refine Spares.bind ((Spares.encodable name).bind fun name => ?_) fun there => ?_
  · cases name.isEmpty with
    | true => exact .pure false
    | false => exact .has _ _
  · cases there with
    | true => exact .pure ()
    | false => exact .fail _

theorem Spares.zoneNameOf (party : Party) : Spares (zoneNameOf party) s := by
  cases party with
  | unspecified | unencodable => exact .pure none
  | named address =>
    simp only [Registry.zoneNameOf]
    split
    · exact .pure none
    · refine (Spares.get _ _).bind fun b => ?_
      cases b with
      | none => exact .pure none
      | some b =>
        refine Spares.bind ?_ fun _ => .pure _
        unfold decodeText
        split
        · exact .pure _
        · exact .fail _

/-! ### Work that writes -/

theorem Spares.steady {a : Action α} (h : ∀ s, Spares a s) : Steady a := fun s _ =>
  let ⟨x, hx⟩ := h s
  ⟨x, s, .inl rfl, hx⟩

theorem Steady.bind {a : Action α} {k : α → Action β} (ha : Steady a) (hk : ∀ x, Steady (k x)) : Steady (a >>= k) := by
  intro s hs
  obtain ⟨x, s', hs', hx⟩ := ha s hs
  cases x with
  | error f =>
    refine ⟨.error f, s', hs'.imp_right (And.imp_right fun hr hd => ?_), hx.bind_error k⟩
    obtain ⟨operation, h⟩ := hr hd
    cases h
    exact ⟨operation, rfl⟩
  | ok x =>
    -- A write that was refused has failed, so that something waits here only inside a block.
    have hopen : s' = s ∨ Waits s s' ∧ s.depth ≠ 0 :=
      hs'.imp_right (And.imp_right fun hr hd => nomatch (hr hd).choose_spec)
    have hobs : Obstructed s' := by
      rcases hopen with rfl | ⟨hw, hd⟩
      · exact hs
      · exact hw.obstructed hd
    obtain ⟨y, s'', hs'', hy⟩ := hk x s' hobs
    refine ⟨y, s'', ?_, hx.bind hy⟩
    rcases hopen with rfl | ⟨hw, hd⟩
    · exact hs''
    · refine .inr ⟨?_, fun h => absurd h hd⟩
      rcases hs'' with rfl | ⟨hw', -⟩
      · exact hw
      · exact hw.trans hw'

theorem Steady.forM {ι : Type} {f : ι → Action Unit} (h : ∀ i, Steady (f i)) (is : List ι) : Steady (is.forM f) := by
  induction is with
  | nil => exact Spares.steady fun _ => .pure ()
  | cons i is ih => exact (h i).bind fun _ => ih

theorem Steady.put (lost : Cause) (operation : String) (r : Records → Records) :
    Steady (do
      let s ← Store.reach lost
      Store.put operation s (r s.working)) := by
  intro s hs
  obtain ⟨c, w, d, l⟩ := s
  cases l with
  | live => exact absurd rfl hs.link
  | broken => exact ⟨.error (.registry lost), _, .inl rfl, fun _ => ⟨[], rfl⟩⟩
  | closed => exact ⟨.error .closed, _, .inl rfl, fun _ => ⟨[], rfl⟩⟩
  | held waiting =>
    cases d with
    | zero =>
      exact ⟨.error (.registry (.writeFailed operation Store.lockedText)), ⟨c, r w, 0, .held true⟩,
        .inr ⟨⟨rfl, rfl, ⟨_, rfl⟩, rfl⟩, fun _ => ⟨operation, rfl⟩⟩, fun _ => ⟨[], rfl⟩⟩
    | succ d =>
      exact ⟨.ok (), ⟨c, r w, d + 1, .held true⟩, .inr ⟨⟨rfl, rfl, ⟨_, rfl⟩, rfl⟩, fun h => nomatch h⟩,
        fun _ => ⟨[], rfl⟩⟩

theorem Steady.set (v : View) (k x : Bytes) : Steady (v.set k x) :=
  Steady.put _ "set" fun r => r.insert (v.key k) x

theorem Steady.delete (v : View) (k : Bytes) : Steady (v.delete k) :=
  Steady.put _ "delete" fun r => r.erase (v.key k)

/-- The end of an outermost block on an obstructed store: what waits then is taken back. -/
theorem Obstructed.endBlock {s : Store} (hs : Obstructed s) (hd : s.depth = 0) (x : Except Failure α)
    (h : s' = { s with depth := 1 } ∨ Waits { s with depth := 1 } s') :
    ∃ y, ∀ log, ∃ es, Store.endBlock (x, ⟨s', log⟩) = (y, ⟨{ s with depth := 1 }, es ++ log⟩) := by
  obtain ⟨-, hsettled, heased⟩ := hs.quiet hd
  obtain ⟨c, w, d, l⟩ := s
  obtain rfl : c = w := hsettled
  rcases h with rfl | hw
  · cases l with
    | live => exact absurd rfl hs.link
    | broken | closed => cases x <;> exact ⟨_, fun _ => ⟨[], rfl⟩⟩
    | held waiting =>
      obtain rfl : false = waiting := Link.held.inj heased
      cases x with
      | ok x => exact ⟨.ok x, fun _ => ⟨[], rfl⟩⟩
      | error f => exact ⟨.error f, fun _ => ⟨[.rolledBack], rfl⟩⟩
  · obtain ⟨c', w', d', l'⟩ := s'
    obtain ⟨hc, hdepth, ⟨waiting, hl⟩, hheld⟩ := hw
    obtain rfl : c' = c := hc
    obtain rfl : d' = 1 := hdepth
    obtain rfl : l = .held waiting := hl
    obtain rfl : l' = .held true := hheld
    obtain rfl : false = waiting := Link.held.inj heased
    cases x <;> exact ⟨_, fun _ => ⟨[.rolledBack], rfl⟩⟩

/-- So an outermost block leaves the store as it is. -/
theorem Steady.block {a : Action α} (h : Steady a) (hs : Obstructed s) (hd : s.depth = 0) :
    Spares (Store.transaction a) s := by
  obtain ⟨x, s', hs', hx⟩ := h { s with depth := 1 } ⟨hs.link, fun h => nomatch h⟩
  obtain ⟨y, hy⟩ := hs.endBlock hd x (hs'.imp_right And.left)
  refine ⟨y, fun log => ?_⟩
  obtain ⟨es, h₁⟩ := hx log
  obtain ⟨fs, h₂⟩ := hy (es ++ log)
  obtain ⟨c, w, d, l⟩ := s
  cases hd
  refine ⟨fs ++ es, ?_⟩
  rw [Store.run_transaction, show Store.enter ⟨⟨c, w, 0, l⟩, log⟩ = ⟨⟨c, w, 1, l⟩, log⟩ from rfl, h₁, h₂,
    List.append_assoc]
  rfl

theorem Steady.transaction {a : Action α} (h : Steady a) : Steady (Store.transaction a) := by
  intro s hs
  by_cases hd : s.depth = 0
  · obtain ⟨x, hx⟩ := h.block hs hd
    exact ⟨x, s, .inl rfl, hx⟩
  · obtain ⟨x, s', hs', hx⟩ := h { s with depth := s.depth + 1 } ⟨hs.link, fun h => nomatch h⟩
    have hd' : s'.depth = s.depth + 1 := by
      rcases hs' with rfl | ⟨hw, -⟩
      · rfl
      · exact hw.depth
    refine ⟨x, { s' with depth := s'.depth - 1 }, ?_, fun log => ?_⟩
    · rcases hs' with rfl | ⟨hw, -⟩
      · exact .inl rfl
      · exact .inr ⟨⟨hw.committed, by rw [hd', Nat.add_sub_cancel], hw.held, hw.waiting⟩, fun h => absurd h hd⟩
    · obtain ⟨es, h⟩ := hx log
      have hne : s'.depth ≠ 1 := by omega
      refine ⟨es, ?_⟩
      rw [Store.run_transaction, show Store.enter ⟨s, log⟩ = ⟨{ s with depth := s.depth + 1 }, log⟩ from rfl, h]
      cases x <;> simp [Store.endBlock, Store.abort, Store.leave, hne]

/-! ### Edits and changes -/

theorem Steady.fail (f : Failure) : Steady (fail f : Action α) := Spares.steady fun _ => .fail f

theorem Steady.note (e : Log.Entry) : Steady (note e) := Spares.steady fun _ => .note e

theorem Steady.encodable (t : Text) : Steady (encodable t) := Spares.steady fun _ => .encodable t

theorem Steady.storable (z : ZoneDraft) : Steady (storable z) :=
  (Steady.encodable _).bind fun _ => Spares.steady fun _ => .pure _

theorem Steady.requireZone (name : String) : Steady (requireZone name) := Spares.steady fun _ => .requireZone name

theorem Steady.zoneNameOf (party : Party) : Steady (zoneNameOf party) := Spares.steady fun _ => .zoneNameOf party

/-- The work of a removal. -/
theorem Steady.erasures (name : String) :
    Steady (do
      zoneView.delete (Utf8.encode name)
      let members := membersOf (Utf8.encode name) (← memberView.scan none none false)
      members.forM memberView.delete
      return members.length : Action Nat) :=
  (Steady.delete _ _).bind fun _ => (Spares.steady fun _ => .scan _ _ _ _).bind fun _ =>
    (Steady.forM (Steady.delete _) _).bind fun _ => Spares.steady fun _ => .pure _

theorem Steady.fail_bind (f : Failure) (k : α → Action β) : Steady (Action.fail f >>= k) :=
  Spares.steady fun _ => ⟨.error f, fun _ => ⟨[], rfl⟩⟩

theorem steady_edit (cfg : Settings) (e : Edit) : Steady (e.act cfg) := by
  cases e with
  | addZone z =>
    simp only [Edit.act, addZone]
    split
    · exact Steady.fail_bind _ _
    · exact (Steady.storable z).bind fun z => (Steady.set _ _ _).bind fun _ => .note _
  | modifyZone z =>
    simp only [Edit.act, modifyZone]
    split
    · exact Steady.fail_bind _ _
    · exact (Steady.storable z).bind fun z => (Steady.requireZone _).bind fun _ =>
        (Steady.set _ _ _).bind fun _ => .note _
  | removeZone name =>
    exact (Steady.encodable name).bind fun name => (Steady.requireZone name).bind fun _ =>
      (Steady.erasures name).transaction.bind fun _ => .note _
  | addAddress zone address =>
    refine (Steady.encodable _).bind fun zone => (Steady.requireZone _).bind fun _ => ?_
    split
    · exact Steady.fail_bind _ _
    · refine (Steady.encodable _).bind fun address => (Steady.zoneNameOf _).bind fun current => ?_
      cases current with
      | none => exact (Steady.set _ _ _).bind fun _ => .note _
      | some current =>
        simp only
        split
        · exact .fail _
        · exact Spares.steady fun _ => .pure ()
  | removeAddress zone address =>
    refine (Steady.encodable _).bind fun zone => (Steady.requireZone _).bind fun _ => ?_
    split
    · exact Steady.fail_bind _ _
    · refine (Steady.encodable _).bind fun address => (Steady.zoneNameOf _).bind fun current => ?_
      simp only
      split
      · exact Steady.fail_bind _ _
      · exact (Steady.delete _ _).bind fun _ => .note _

/-- Whether an edit writes without opening a block. -/
def Edit.loose : Edit → Bool
  | .removeZone _ => false
  | _ => true

/-- Whether a change writes without opening a block: an edit of a single record does. -/
def Change.loose : Change → Bool
  | .edit e => e.loose
  | _ => false

theorem Change.eq_edit_of_loose {c : Change} (h : c.loose = true) : ∃ e, c = .edit e := by
  cases c with
  | edit e => exact ⟨e, rfl⟩
  | message | importState | migrate => cases h

/-- A change that opens no block for its edits and yet is not loose is a removal, which opens one itself. -/
theorem Change.edits_eq_removeZone {c : Change} (hg : c.grouped = false) (h : c.loose = false) :
    ∃ name, c.edits = [.removeZone name] := by
  cases c with
  | edit e =>
    cases e with
    | removeZone name => exact ⟨name, rfl⟩
    | addZone | modifyZone | addAddress | removeAddress => cases h
  | message m =>
    cases m with
    | removeZone c => exact ⟨c.zone, rfl⟩
    | addZone | modifyZone | addAddresses | removeAddresses => cases hg
  | importState | migrate => cases hg

theorem Spares.removeZone (hs : Obstructed s) (hd : s.depth = 0) (name : Text) : Spares (removeZone name) s :=
  (Spares.encodable name).bind fun name => (Spares.requireZone name).bind fun _ =>
    ((Steady.erasures name).block hs hd).bind fun _ => .note _

/-- **A change on an obstructed store.** Outside a block it leaves the store as it is if it opens a block itself. -/
theorem Spares.change (hs : Obstructed s) (hd : s.depth = 0) (cfg : Settings) {c : Change} (hc : c.loose = false) :
    Spares (c.act cfg) s := by
  rw [Change.act_eq]
  refine (Spares.ofExcept _).bind fun _ => Spares.bind ?_ fun _ => .forM .note _
  unfold Change.work
  split
  · exact (Steady.forM (steady_edit cfg) _).block hs hd
  · rename_i hg
    obtain ⟨name, he⟩ := Change.edits_eq_removeZone (Bool.eq_false_of_not_eq_true hg) hc
    rw [he]
    exact (Spares.removeZone hs hd name).bind fun _ => .pure ()

end Obstructed

end Registry

end ExemptZones
