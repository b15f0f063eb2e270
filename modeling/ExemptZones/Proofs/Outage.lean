import ExemptZones.Proofs.Nesting
import ExemptZones.Proofs.Obstruction
import ExemptZones.Registry.Queries

/-
A store whose database has gone away: what the operations on it report. Every access reports a failure of the
storage; the end of an outermost block does not, for the commit and the return to the committed records fail as the
database fails.

`Operation.cut`: an operation that opens no outermost block does not show the failure of the database.
`Operation.ends_disconnected`: every other operation ends with it.
-/

namespace ExemptZones

open ExemptZones.Action

/-- Failures that are reported as failures of the storage. -/
def Failure.isOfStorage : Failure → Bool
  | .registry c => c.kind.lineage.contains .storage
  | _ => false

/-! ## Work on a store that cannot be reached -/

section Unreached

variable {α β : Type} {s : Store}

/-- From this store the work ends in `x`, and leaves the store as it is. -/
abbrev Ends (a : Action α) (s : Store) (x : Except Failure α) : Prop :=
  Leads a s x s

/-- The work fails, which is reported as a failure of the storage unless it fails so with any database. -/
def Halts (a : Action α) (s : Store) : Prop :=
  ∃ f, Ends a s (.error f) ∧ (f.isOfStorage = true ∨ ∀ t : Session, t.Ready → a.Does t (.error f) t.records)

/-- The work is done as with any database, for it needs none. -/
def Spared (a : Action α) (s : Store) (y : α) : Prop :=
  Ends a s (.ok y) ∧ ∀ t : Session, t.Ready → a.Does t (.ok y) t.records

/-- The work is done without the database, or fails in a way that does not show the failure of the database. -/
def Cut (a : Action α) (s : Store) : Prop :=
  Halts a s ∨ ∃ y, Spared a s y

/-- A block inside another ends as the work in it does. -/
theorem Ends.transaction_inner {a : Action α} {x : Except Failure α} (hd : 0 < s.depth)
    (h : Ends a { s with depth := s.depth + 1 } x) : Ends (Store.transaction a) s x := fun log => by
  obtain ⟨es, he⟩ := h log
  have hne : s.depth ≠ 0 := Nat.ne_of_gt hd
  refine ⟨es, ?_⟩
  rw [Store.run_transaction, Store.enter, he]
  cases x <;> simp [Store.endBlock, Store.abort, Store.leave, hne]

/-- An outermost block fails as the database does, however the work in it ends. -/
theorem Ends.transaction_outermost {a : Action α} {x : Except Failure α} (hl : s.link = .broken) (hd : s.depth = 0)
    (h : Ends a { s with depth := s.depth + 1 } x) : Ends (Store.transaction a) s (.error .disconnected) :=
  fun log => by
    obtain ⟨es, he⟩ := h log
    obtain ⟨c, w, d, l⟩ := s
    cases hl
    cases hd
    refine ⟨es, ?_⟩
    rw [Store.run_transaction, Store.enter, he]
    cases x <;> rfl

theorem Halts.fail (f : Failure) : Halts (fail f : Action α) s :=
  ⟨f, fun _ => ⟨[], rfl⟩, .inr fun _ ht => .fail ht f⟩

theorem Halts.bind {a : Action α} (h : Halts a s) (k : α → Action β) : Halts (a >>= k) s := by
  obtain ⟨f, he, hf⟩ := h
  exact ⟨f, he.bind_error k, hf.imp_right fun hf t ht => .bind_error (hf t ht)⟩

theorem Halts.reach (hs : s.link = .broken) {c : Cause} (hc : (Failure.registry c).isOfStorage = true) :
    Halts (Store.reach c) s :=
  ⟨.registry c, fun _ => ⟨[], by simp [Store.reach, hs]⟩, .inl hc⟩

theorem Spared.pure (y : α) : Spared (Pure.pure y : Action α) s y :=
  ⟨fun _ => ⟨[], rfl⟩, fun _ ht => .pure ht y⟩

theorem Spared.note (e : Log.Entry) : Spared (note e) s () :=
  ⟨fun _ => ⟨[e], rfl⟩, fun _ ht => .note ht e⟩

theorem Halts.cut {a : Action α} (h : Halts a s) : Cut a s := .inl h

theorem Cut.pure (y : α) : Cut (Pure.pure y : Action α) s := .inr ⟨y, .pure y⟩

theorem Cut.bind {a : Action α} {k : α → Action β} (h : Cut a s) (hk : ∀ y, Cut (k y) s) : Cut (a >>= k) s := by
  obtain h | ⟨y, he, hy⟩ := h
  · exact (h.bind k).cut
  -- What needs no database adds nothing to what comes after it, here and with any database.
  have does : ∀ {x}, (∀ t : Session, t.Ready → (k y).Does t x t.records) →
      ∀ t : Session, t.Ready → (a >>= k).Does t x t.records := fun hx t ht =>
    .bind ht (hy t ht) fun u hu hur => hur ▸ hx u hu
  obtain ⟨f, hf, hu⟩ | ⟨z, hf, hz⟩ := hk y
  · exact .inl ⟨f, he.bind hf, hu.imp_right does⟩
  · exact .inr ⟨z, he.bind hf, does hz⟩

theorem Cut.forM {f : α → Action Unit} (xs : List α) (h : ∀ x, Cut (f x) s) : Cut (forM xs f) s := by
  induction xs with
  | nil => exact .pure ()
  | cons x xs ih =>
    rw [List.forM_cons]
    exact .bind (h x) fun _ => ih

theorem Cut.transaction {a : Action α} (hd : 0 < s.depth) (h : Cut a { s with depth := s.depth + 1 }) :
    Cut (Store.transaction a) s := by
  obtain ⟨f, he, hf⟩ | ⟨y, he, hy⟩ := h
  · refine .inl ⟨f, he.transaction_inner hd, hf.imp_right fun hf t ht => ?_⟩
    rw [← t.kept_error (α := α) f]
    exact .transaction ht (hf _ (Store.ready_enter ht.live))
  · exact .inr ⟨y, he.transaction_inner hd, fun t ht => .transaction ht (hy _ (Store.ready_enter ht.live))⟩

/-- Work that is cut ends somehow and leaves the store as it is. -/
theorem Cut.ends {a : Action α} (h : Cut a s) : ∃ x, Ends a s x := by
  obtain ⟨f, he, -⟩ | ⟨y, he, -⟩ := h
  · exact ⟨.error f, he⟩
  · exact ⟨.ok y, he⟩

end Unreached

section Broken

variable {s : Store}

theorem Halts.get (hs : s.link = .broken) (k : Bytes) : Halts (Store.get k) s :=
  (Halts.reach hs rfl).bind _

theorem Halts.has (hs : s.link = .broken) (k : Bytes) : Halts (Store.has k) s :=
  (Halts.get hs k).bind _

theorem Halts.set (hs : s.link = .broken) (k v : Bytes) : Halts (Store.set k v) s :=
  (Halts.reach hs rfl).bind _

theorem Halts.delete (hs : s.link = .broken) (k : Bytes) : Halts (Store.delete k) s :=
  (Halts.reach hs rfl).bind _

theorem Halts.scan (hs : s.link = .broken) (start stop : Option Bytes) (reverse : Bool) :
    Halts (Store.scan start stop reverse) s :=
  (Halts.reach hs rfl).bind _

theorem Halts.scanView (hs : s.link = .broken) (v : View) (start stop : Option Bytes) (reverse : Bool) :
    Halts (v.scan start stop reverse) s :=
  (Halts.scan hs _ _ _).bind _

/-- An access to a database that is gone fails with a report about the storage. -/
theorem Access.run_broken {t : Session} (hs : t.store.link = .broken) (i : Access) :
    ∃ c, (Failure.registry c).isOfStorage = true ∧ i.act.run t = (.error (.registry c), t) := by
  have hreach (c : Cause) : (Store.reach c).run t = (.error (.registry c), t) := by simp [Store.reach, hs]
  cases i with
  | get k => exact ⟨.readFailed "get" Store.goneText, rfl, by simp [act, Store.get, hreach]⟩
  | has k => exact ⟨.readFailed "get" Store.goneText, rfl, by simp [act, Store.has, Store.get, hreach]⟩
  | set k v => exact ⟨.writeFailed "set" Store.goneText, rfl, by simp [act, Store.set, hreach]⟩
  | delete k => exact ⟨.writeFailed "delete" Store.goneText, rfl, by simp [act, Store.delete, hreach]⟩

theorem Halts.access (hs : s.link = .broken) (i : Access) : Halts i.act s := by
  cases i with
  | get k => exact (Halts.get hs k).bind _
  | has k => exact (Halts.has hs k).bind _
  | set k v => exact Halts.set hs k v
  | delete k => exact Halts.delete hs k

end Broken

namespace Registry

section Broken

variable {s : Store}

/-! ## Questions -/

theorem cut_encodable (t : Text) : Cut (encodable t) s := by
  cases t with
  | plain t => exact .pure t
  | broken b => exact (Halts.fail _).cut

theorem halts_encodable {α : Type} {t : Text} {k : String → Action α} (h : ∀ t, Halts (k t) s) :
    Halts (encodable t >>= k) s := by
  cases t with
  | plain t => exact h t
  | broken b => exact (Halts.fail _).bind k

theorem halts_storable {α : Type} {z : ZoneDraft} {k : Zone → Action α} (h : ∀ z, Halts (k z) s) :
    Halts (storable z >>= k) s := by
  obtain ⟨f, name⟩ := z
  cases name with
  | plain n => exact h ⟨f, n⟩
  | broken b => exact (Halts.fail _).bind k

theorem cut_hasZone (hs : s.link = .broken) (name : Text) : Cut (hasZone name) s := by
  refine .bind (cut_encodable name) fun name => ?_
  split
  · exact .pure _
  · exact (Halts.has hs _).cut

theorem halts_requireZone (hs : s.link = .broken) (name : String) : Halts (requireZone name) s := by
  unfold requireZone hasZone
  rw [encodable_plain, pure_bind]
  split
  · exact Halts.fail (.registry (.zoneNotFound name))
  · exact (Halts.has hs _).bind _

theorem cut_zoneNameOf (hs : s.link = .broken) (party : Party) : Cut (zoneNameOf party) s := by
  cases party with
  | unspecified | unencodable => exact .pure none
  | named address =>
    simp only [zoneNameOf]
    split
    · exact .pure none
    · exact ((Halts.get hs _).bind _).cut

theorem cut_resolve (hs : s.link = .broken) (party : Party) (cache : Cache) : Cut (resolve party cache) s := by
  refine .bind (cut_zoneNameOf hs party) fun name => ?_
  cases name with
  | none => exact .pure _
  | some name =>
    dsimp only
    split
    · exact .pure _
    · exact ((Halts.get hs _).bind _).cut

theorem cut_isExempt (hs : s.link = .broken) (sender recipient : Party) : Cut (isExempt sender recipient) s :=
  .bind (cut_resolve hs sender []) fun p => .bind (cut_resolve hs recipient p.2) fun _ => .pure _

theorem cut_isTaxable (hs : s.link = .broken) (sender recipient : Party) : Cut (isTaxable sender recipient) s :=
  .bind (cut_isExempt hs sender recipient) fun _ => .pure _

theorem halts_paginate (hs : s.link = .broken) (v : View) (request : Option PageRequest) (wanted : Record → Bool) :
    Halts (paginate v request wanted) s := by
  unfold paginate
  dsimp only
  split
  · exact (Halts.fail _).bind _
  · exact (Halts.scanView hs _ _ _ _).bind _

theorem halts_listZones (hs : s.link = .broken) (request : Option PageRequest) : Halts (listZones request) s :=
  (halts_paginate hs _ _ _).bind _

theorem halts_listAddresses (hs : s.link = .broken) (zone : Text) (request : Option PageRequest) :
    Halts (listAddresses zone request) s :=
  halts_encodable fun _ => (halts_paginate hs _ _ _).bind _

theorem halts_getZone (hs : s.link = .broken) (name : Text) : Halts (getZone name) s :=
  halts_encodable fun _ => (Halts.get hs _).bind _

theorem halts_zones (hs : s.link = .broken) : Halts zones s :=
  (Halts.scanView hs _ _ _ _).bind _

theorem cut_answer (hs : s.link = .broken) (q : Option Query) : Cut (answer q) s := by
  rcases q with _ | q
  · exact (Halts.fail _).cut
  · cases q with
    | taxable sender recipient => exact .bind (cut_isTaxable hs sender recipient) fun _ => .pure _
    | zones p => exact ((halts_listZones hs p).bind _).cut
    | addresses z p => exact ((halts_listAddresses hs z p).bind _).cut
    | zone n => exact ((halts_getZone hs n).bind _).cut

/-! ## Changes -/

theorem halts_edit (hs : s.link = .broken) (cfg : Settings) (e : Edit) : Halts (e.act cfg) s := by
  cases e with
  | addZone z =>
    simp only [Edit.act, addZone]
    split
    · exact (Halts.fail _).bind _
    · exact halts_storable fun _ => (Halts.set hs _ _).bind _
  | modifyZone z =>
    simp only [Edit.act, modifyZone]
    split
    · exact (Halts.fail _).bind _
    · exact halts_storable fun _ => (halts_requireZone hs _).bind _
  | removeZone name | addAddress zone address | removeAddress zone address =>
    exact halts_encodable fun _ => (halts_requireZone hs _).bind _

theorem cut_edits (hs : s.link = .broken) (cfg : Settings) (es : List Edit) : Cut (forM es (Edit.act cfg)) s :=
  .forM es fun e => (halts_edit hs cfg e).cut

/-- Whether a change comes to open a block. -/
def Change.opensBlock (cfg : Settings) (c : Change) : Prop :=
  c.grouped = true ∧ c.check cfg = .ok ()

theorem cut_change (hs : s.link = .broken) (cfg : Settings) (c : Change)
    (hb : ¬ (s.depth = 0 ∧ c.opensBlock cfg)) : Cut (c.act cfg) s := by
  rw [Change.act_eq]
  cases hc : c.check cfg with
  | error f => exact ((Halts.fail f).bind _).cut
  | ok _ =>
    rw [Action.ofExcept, pure_bind]
    refine .bind ?_ fun _ => .forM _ fun e => .inr ⟨(), .note e⟩
    unfold Change.work
    split
    · rename_i hg
      have hd : 0 < s.depth := Nat.pos_of_ne_zero fun h => hb ⟨h, hg, hc⟩
      have hs' : { s with depth := s.depth + 1 }.link = .broken := hs
      exact .transaction hd (cut_edits hs' cfg c.edits)
    · exact cut_edits hs cfg c.edits

theorem Change.ends_disconnected (hs : s.link = .broken) (hd : s.depth = 0) {cfg : Settings} {c : Change}
    (hb : c.opensBlock cfg) : Ends (c.act cfg) s (.error .disconnected) := by
  have hs' : { s with depth := s.depth + 1 }.link = .broken := hs
  obtain ⟨x, hx⟩ := (cut_edits hs' cfg c.edits).ends
  rw [Change.act_eq, hb.2, Action.ofExcept, pure_bind, Change.work, if_pos hb.1]
  exact (Ends.transaction_outermost hs hd hx).bind_error _

end Broken

/-! ## Operations -/

/-- What can be asked of a registry and of the store under it. What is answered is not used. -/
inductive Operation where
  | access (i : Access)
  | scan (start stop : Option Bytes) (reverse : Bool)
  | change (c : Change)
  | hasZone (name : Text)
  | getZone (name : Text)
  | zones
  | memberships
  | zoneNameOf (party : Party)
  | resolve (party : Party) (cache : Cache)
  | isExempt (sender recipient : Party)
  | isTaxable (sender recipient : Party)
  | listZones (request : Option PageRequest)
  | listAddresses (zone : Text) (request : Option PageRequest)
  | query (q : Option Query)
  | exportState

namespace Operation

def act (cfg : Settings) : Operation → Action Unit
  | .access i => i.act
  | .scan start stop reverse => do let _ ← Store.scan start stop reverse
  | .change c => c.act cfg
  | .hasZone name => do let _ ← Registry.hasZone name
  | .getZone name => do let _ ← Registry.getZone name
  | .zones => do let _ ← Registry.zones
  | .memberships => do let _ ← Registry.memberships
  | .zoneNameOf party => do let _ ← Registry.zoneNameOf party
  | .resolve party cache => do let _ ← Registry.resolve party cache
  | .isExempt sender recipient => do let _ ← Registry.isExempt sender recipient
  | .isTaxable sender recipient => do let _ ← Registry.isTaxable sender recipient
  | .listZones request => do let _ ← Registry.listZones request
  | .listAddresses zone request => do let _ ← Registry.listAddresses zone request
  | .query q => do let _ ← answer q
  | .exportState => do let _ ← Registry.exportState cfg

/-- Whether an operation comes to open a block. Questions open none. -/
def opensBlock (cfg : Settings) : Operation → Prop
  | .change c => c.opensBlock cfg
  | _ => False

/-- **No operation shows the failure of the database** if it opens no block, or another is open. -/
theorem cut {s : Store} (hs : s.link = .broken) (cfg : Settings) (o : Operation)
    (hb : ¬ (s.depth = 0 ∧ o.opensBlock cfg)) : Cut (o.act cfg) s := by
  cases o with
  | access i => exact (Halts.access hs i).cut
  | scan start stop reverse => exact ((Halts.scan hs _ _ _).bind _).cut
  | change c => exact cut_change hs cfg c hb
  | hasZone name => exact .bind (cut_hasZone hs name) fun _ => .pure ()
  | getZone name => exact ((halts_getZone hs name).bind _).cut
  | zones => exact ((halts_zones hs).bind _).cut
  | memberships => exact (((Halts.scanView hs _ _ _ _).bind _).bind _).cut
  | zoneNameOf party => exact .bind (cut_zoneNameOf hs party) fun _ => .pure ()
  | resolve party cache => exact .bind (cut_resolve hs party cache) fun _ => .pure ()
  | isExempt sender recipient => exact .bind (cut_isExempt hs sender recipient) fun _ => .pure ()
  | isTaxable sender recipient => exact .bind (cut_isTaxable hs sender recipient) fun _ => .pure ()
  | listZones request => exact ((halts_listZones hs request).bind _).cut
  | listAddresses zone request => exact ((halts_listAddresses hs zone request).bind _).cut
  | query q => exact .bind (cut_answer hs q) fun _ => .pure ()
  | exportState => exact (((halts_zones hs).bind _).bind _).cut

/-- **An operation that opens an outermost block** fails as the database does. -/
theorem ends_disconnected {s : Store} (hs : s.link = .broken) (hd : s.depth = 0) {cfg : Settings} {o : Operation}
    (hb : o.opensBlock cfg) : Ends (o.act cfg) s (.error .disconnected) := by
  cases o with
  | change c => exact Change.ends_disconnected hs hd hb
  | _ => cases hb

end Operation

end Registry

end ExemptZones
