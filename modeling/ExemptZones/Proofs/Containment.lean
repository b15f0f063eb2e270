import ExemptZones.Proofs.Outage
import ExemptZones.Proofs.Reading
import ExemptZones.Proofs.Script

/-
A database that goes away while blocks are open. Inside a block nothing is asked of the database but by accesses,
which report what becomes of it; where the outermost block ends, what becomes of it shows.

`Contained`: work that inside a block does not fail as the database does.
`Script.contained`: everything that operations on a registry can be put together to is such work.
`Registry.outage_shown`: so the failure of the database is shown by outermost blocks, and by nothing else.
-/

namespace ExemptZones

open ExemptZones.Action

/-- In an open block the work does not fail as the database does, whatever becomes of the database meanwhile, and
leaves as many blocks open as there were. -/
def Contained {α : Type} (a : Action α) : Prop :=
  ∀ s : Session, 0 < s.store.depth →
    (a.run s).1 ≠ .error .disconnected ∧ (a.run s).2.store.depth = s.store.depth

theorem Reads.contained {α : Type} {a : Action α} (h : Reads a) : Contained a :=
  fun s _ => ⟨(h s).2, congrArg Store.depth (h s).1⟩

namespace Contained

variable {α β : Type} {a : Action α}

theorem pure (y : α) : Contained (Pure.pure y : Action α) := fun _ _ => ⟨nofun, rfl⟩

theorem fail {f : Failure} (hf : f ≠ .disconnected) : Contained (Action.fail f : Action α) :=
  fun _ _ => ⟨fun h => hf (Except.error.inj h), rfl⟩

theorem blame (c : Cause) : Contained (Action.blame c : Action α) :=
  fail nofun

/-- What would come after a refusal does not matter. -/
theorem refuse (c : Cause) (k : α → Action β) : Contained (Action.blame c >>= k) := fun _ _ => ⟨nofun, rfl⟩

theorem note (e : Log.Entry) : Contained (Action.note e) := fun _ _ => ⟨nofun, rfl⟩

theorem bind {k : α → Action β} (ha : Contained a) (hk : ∀ y, Contained (k y)) : Contained (a >>= k) := by
  intro s hs
  obtain ⟨hn, hd⟩ := ha s hs
  rw [run_bind]
  rcases h : a.run s with ⟨f | y, t⟩ <;> rw [h] at hn hd
  · exact ⟨fun he => hn (congrArg Except.error (Except.error.inj he)), hd⟩
  · obtain ⟨hn', hd'⟩ := hk y t (hd ▸ hs)
    exact ⟨hn', hd'.trans hd⟩

/-- A handler is come to only with failures that are not the database's own. -/
theorem rescue {k : Failure → Action α} (ha : Contained a) (hk : ∀ f, f ≠ .disconnected → Contained (k f)) :
    Contained (tryCatch a k) := by
  intro s hs
  obtain ⟨hn, hd⟩ := ha s hs
  rw [run_tryCatch]
  rcases h : a.run s with ⟨f | y, t⟩ <;> rw [h] at hn hd
  · obtain ⟨hn', hd'⟩ := hk f (fun he => hn (congrArg Except.error he)) t (hd ▸ hs)
    exact ⟨hn', hd'.trans hd⟩
  · exact ⟨nofun, hd⟩

/-- The end of an inner block asks nothing of the database. -/
theorem transaction (ha : Contained a) : Contained (Store.transaction a) := by
  intro s hs
  obtain ⟨hn, hd⟩ := ha (Store.enter s) (Store.open_enter s)
  rw [Store.run_transaction]
  rcases h : a.run (Store.enter s) with ⟨x, t⟩
  rw [h] at hn hd
  replace hd : t.store.depth = s.store.depth + 1 := hd
  have hne : s.store.depth ≠ 0 := Nat.ne_of_gt hs
  cases x with
  | error f => simpa [Store.endBlock, Store.abort, Store.leave, hd, hne] using hn
  | ok y => simp [Store.endBlock, Store.leave, hd, hne]

theorem forM {f : β → Action Unit} (xs : List β) (h : ∀ x, Contained (f x)) : Contained (forM xs f) := by
  induction xs with
  | nil => exact .pure ()
  | cons x xs ih =>
    rw [List.forM_cons]
    exact .bind (h x) fun _ => ih

/-- A write in an open block asks nothing of the database. -/
theorem put (lost : Cause) (operation : String) (r : Records → Records) :
    Contained (do
      let s ← Store.reach lost
      Store.put operation s (r s.working)) := by
  rintro ⟨⟨_, _, d, l⟩, _⟩ hs
  cases d with
  | zero => exact absurd hs (Nat.lt_irrefl 0)
  | succ d => cases l <;> exact ⟨nofun, rfl⟩

theorem set (k v : Bytes) : Contained (Store.set k v) :=
  .put _ "set" fun r => r.insert k v

theorem delete (k : Bytes) : Contained (Store.delete k) :=
  .put _ "delete" fun r => r.erase k

theorem access (i : Access) : Contained i.act := by
  cases i with
  | get k => exact (Reads.bind (.get k) fun _ => .pure ()).contained
  | has k => exact (Reads.bind (.has k) fun _ => .pure ()).contained
  | set k v => exact .set k v
  | delete k => exact .delete k

end Contained

namespace Registry

theorem reads_storable (z : ZoneDraft) : Reads (storable z) :=
  .bind (reads_encodable z.name) fun _ => .pure _

theorem contained_addZone (z : ZoneDraft) : Contained (addZone z) := by
  unfold addZone
  split
  · exact .refuse _ _
  · exact .bind (reads_storable z).contained fun _ => .bind (.set _ _) fun _ => .note _

theorem contained_modifyZone (z : ZoneDraft) : Contained (modifyZone z) := by
  unfold modifyZone
  split
  · exact .refuse _ _
  · exact .bind (reads_storable z).contained fun _ => .bind (reads_requireZone _).contained fun _ =>
      .bind (.set _ _) fun _ => .note _

theorem contained_removeZone (name : Text) : Contained (removeZone name) := by
  refine .bind (reads_encodable name).contained fun name => .bind (reads_requireZone name).contained fun _ =>
    .bind (.transaction ?_) fun _ => .note _
  exact .bind (.delete _) fun _ => .bind (Reads.scanView _ _ _ _).contained fun _ =>
    .bind (.forM _ fun k => .delete _) fun _ => .pure _

theorem contained_addAddress (cfg : Settings) (zone address : Text) : Contained (addAddress cfg zone address) := by
  refine .bind (reads_encodable zone).contained fun zone => .bind (reads_requireZone zone).contained fun _ => ?_
  cases Address.validate address cfg.addressPrefix with
  | error fault => exact .refuse _ _
  | ok raw =>
    refine .bind (reads_encodable address).contained fun address => .bind (reads_zoneNameOf _).contained fun current => ?_
    cases current with
    | none => exact .bind (.set _ _) fun _ => .note _
    | some current =>
      dsimp only
      split
      · exact .blame _
      · exact .pure _

theorem contained_removeAddress (cfg : Settings) (zone address : Text) :
    Contained (removeAddress cfg zone address) := by
  refine .bind (reads_encodable zone).contained fun zone => .bind (reads_requireZone zone).contained fun _ => ?_
  cases Address.validate address cfg.addressPrefix with
  | error fault => exact .refuse _ _
  | ok raw =>
    refine .bind (reads_encodable address).contained fun address => .bind (reads_zoneNameOf _).contained fun current => ?_
    split
    · exact .refuse _ _
    · exact .bind (.delete _) fun _ => .note _

theorem contained_edit (cfg : Settings) (e : Edit) : Contained (e.act cfg) := by
  cases e with
  | addZone z => exact contained_addZone z
  | modifyZone z => exact contained_modifyZone z
  | removeZone name => exact contained_removeZone name
  | addAddress zone address => exact contained_addAddress cfg zone address
  | removeAddress zone address => exact contained_removeAddress cfg zone address

theorem contained_change (cfg : Settings) (c : Change) : Contained (c.act cfg) := by
  rw [Change.act_eq]
  have hedits : Contained (forM c.edits (Edit.act cfg)) := .forM _ (contained_edit cfg)
  have hwork : Contained (c.work cfg) := by
    unfold Change.work
    split
    · exact .transaction hedits
    · exact hedits
  cases hc : c.check cfg with
  | ok _ => exact .bind (.pure _) fun _ => .bind hwork fun _ => .forM _ .note
  | error f =>
    refine .bind (.fail ?_) fun _ => .bind hwork fun _ => .forM _ .note
    rintro rfl
    cases c with
    | message m =>
      simp only [Change.check] at hc
      split at hc
      · cases hc
      · split at hc <;> cases hc
    | edit | importState | migrate => cases hc

namespace Operation

theorem contained (cfg : Settings) (o : Operation) : Contained (o.act cfg) := by
  cases o with
  | access i => exact .access i
  | scan start stop reverse => exact (Reads.bind (.scan _ _ _) fun _ => .pure ()).contained
  | change c => exact contained_change cfg c
  | hasZone name => exact ((reads_hasZone name).bind fun _ => .pure ()).contained
  | getZone name => exact ((reads_getZone name).bind fun _ => .pure ()).contained
  | zones => exact (reads_zones.bind fun _ => .pure ()).contained
  | memberships => exact (reads_memberships.bind fun _ => .pure ()).contained
  | zoneNameOf party => exact ((reads_zoneNameOf party).bind fun _ => .pure ()).contained
  | resolve party cache => exact ((reads_resolve party cache).bind fun _ => .pure ()).contained
  | isExempt sender recipient => exact ((reads_isExempt sender recipient).bind fun _ => .pure ()).contained
  | isTaxable sender recipient => exact ((reads_isTaxable sender recipient).bind fun _ => .pure ()).contained
  | listZones request => exact ((reads_listZones request).bind fun _ => .pure ()).contained
  | listAddresses zone request => exact ((reads_listAddresses zone request).bind fun _ => .pure ()).contained
  | query q => exact ((reads_answer q).bind fun _ => .pure ()).contained
  | exportState => exact ((reads_exportState cfg).bind fun _ => .pure ()).contained

end Operation

/-- What may happen in a script: an operation, or that the database goes away. -/
inductive Event where
  | operation (o : Operation)
  | outage

def Event.act (cfg : Settings) : Event → Action Unit
  | .operation o => o.act cfg
  | .outage => do setStore (← Action.store).sever

theorem Event.contained (cfg : Settings) (e : Event) : Contained (e.act cfg) := by
  cases e with
  | operation o => exact o.contained cfg
  | outage =>
    rintro ⟨⟨_, _, _, l⟩, _⟩ hs
    cases l <;> exact ⟨nofun, rfl⟩

end Registry

namespace Script

variable {ι : Type}

/-- The work around the steps does not give up with a failure that only a database has. -/
def Proper : Script ι → Prop
  | .done | .step _ => True
  | .raise f => f ≠ .disconnected
  | .seq a b => a.Proper ∧ b.Proper
  | .block a => a.Proper
  | .rescue a handler => a.Proper ∧ ∀ f, f ≠ .disconnected → (handler f).Proper

/-- **Inside a block the failure of the database does not show**, whatever is done there, caught there, or becomes of
the database there. -/
theorem contained {perform : ι → Action Unit} (hstep : ∀ i, Contained (perform i)) (a : Script ι) (ha : a.Proper) :
    Contained (a.run perform) := by
  induction a with
  | done => exact .pure ()
  | step i => exact hstep i
  | raise f => exact .fail ha
  | seq a b iha ihb => exact .bind (iha ha.1) fun _ => ihb ha.2
  | block a ih => exact .transaction (ih ha)
  | rescue a handler iha ihb => exact .rescue (iha ha.1) fun f hf => ihb f (ha.2 f hf)

end Script

/-- The end of an outermost block fails as the database does only if the database is gone. One that another connection
holds fails in another way. -/
theorem Store.endBlock_disconnected_iff {α : Type} {x : Except Failure α} (hx : x ≠ .error .disconnected) {c w : Records}
    {l : Link} {log : List Log.Entry} :
    (Store.endBlock (x, ⟨⟨c, w, 1, l⟩, log⟩)).1 = .error .disconnected ↔ l = .broken := by
  cases x with
  | ok y =>
    cases l with
    | held waiting => cases waiting <;> simp [Store.endBlock, Store.abort, Link.refusal?, Link.loss?]
    | live | broken | closed => simp [Store.endBlock, Store.abort, Link.refusal?, Link.loss?]
  | error f =>
    have hf : f ≠ .disconnected := fun h => hx (congrArg Except.error h)
    cases l <;> simp [Store.endBlock, Store.abort, Link.loss?, hf]

/-- **An outermost block shows the failure of the database** if and only if the database is gone when the block
ends. -/
theorem Contained.disconnected_iff {a : Action Unit} (ha : Contained a) {s : Session} (hd : s.store.depth = 0) :
    ((Store.transaction a).run s).1 = .error .disconnected ↔ (a.run (Store.enter s)).2.store.link = .broken := by
  obtain ⟨hn, ht⟩ := ha (Store.enter s) (Store.open_enter s)
  rw [Store.run_transaction]
  rcases h : a.run (Store.enter s) with ⟨x, ⟨c, w, d, l⟩, log⟩
  rw [h] at hn ht
  replace ht : d = 1 := by simpa [Store.enter, hd] using ht
  cases ht
  exact Store.endBlock_disconnected_iff hn

namespace Registry

/-- **Where the failure of a database shows.** Once the database is gone, an access fails with a report about the
storage. An operation that opens no outermost block changes nothing, and if it fails, then with such a report or as
it fails with any database; one that opens an outermost block fails as the database does. Wherever the database goes
away, a block inside another does not show it, and an outermost block shows it if and only if the database is gone
when the block ends. -/
theorem outage_shown (cfg : Settings) :
    (∀ (i : Access) (s : Session), s.store.link = .broken →
      ∃ c, (Failure.registry c).isOfStorage = true ∧ i.act.run s = (.error (.registry c), s)) ∧
    (∀ (o : Operation) (s : Session), s.store.link = .broken → ¬ (s.store.depth = 0 ∧ o.opensBlock cfg) →
      ∃ x es, (o.act cfg).run s = (x, s.tell es) ∧
        ∀ f, x = .error f → f.isOfStorage = true ∨ ∀ t : Session, t.Ready → ((o.act cfg).run t).1 = .error f) ∧
    (∀ (o : Operation) (s : Session), s.store.link = .broken → s.store.depth = 0 → o.opensBlock cfg →
      ∃ es, (o.act cfg).run s = (.error .disconnected, s.tell es)) ∧
    ∀ (a : Script Event) (s : Session), a.Proper →
      (0 < s.store.depth → (((Script.block a).run (Event.act cfg)).run s).1 ≠ .error .disconnected) ∧
      (s.store.depth = 0 → ((((Script.block a).run (Event.act cfg)).run s).1 = .error .disconnected ↔
        ((a.run (Event.act cfg)).run (Store.enter s)).2.store.link = .broken)) := by
  refine ⟨fun i s hs => i.run_broken hs, fun o s hs hb => ?_,
    fun o s hs hd hb => o.ends_disconnected hs hd hb s.log, fun a s ha => ?_⟩
  · obtain ⟨f, he, hf⟩ | ⟨y, he, -⟩ := o.cut hs cfg hb
    · obtain ⟨es, he⟩ := he s.log
      refine ⟨.error f, es, he, ?_⟩
      rintro _ ⟨⟩
      exact hf.imp_right fun hf t ht => by
        obtain ⟨fs, h⟩ := hf t ht
        rw [h]
    · obtain ⟨es, he⟩ := he s.log
      exact ⟨.ok y, es, he, nofun⟩
  · have hc : Contained (a.run (Event.act cfg)) := a.contained (Event.contained cfg) ha
    exact ⟨fun hd => (hc.transaction s hd).1, hc.disconnected_iff⟩

/-- A zone written in a block in which the database then goes away, and what could not be read there caught: the
block shows it. -/
theorem outage_shown_caught :
    let a : Script Event := .seq (.step (.operation (.change (.edit (.addZone ⟨{}, "a"⟩)))))
      (.seq (.step .outage) (.rescue (.step (.operation .zones)) fun _ => .done))
    (((Script.block a).run (Event.act {})).run ⟨.empty, []⟩).1 = .error .disconnected := by
  intro a
  have ha : a.Proper := ⟨trivial, trivial, trivial, fun _ _ => trivial⟩
  exact (((outage_shown {}).2.2.2 a ⟨.empty, []⟩ ha).2 rfl).2 rfl

/-- A message sent after the database went away: it is not reported as a failure of the storage, though the first
thing that it does is. -/
theorem outage_not_of_storage :
    let s : Session := ⟨Store.empty.sever, []⟩
    ((addZone ⟨{}, "a"⟩).run s).1 = .error (.registry (.writeFailed "set" Store.goneText)) ∧
    ((handle {} (.addZone ⟨{}, "", "a", []⟩)).run s).1 = .error .disconnected ∧
    Failure.disconnected.isOfStorage = false ∧
    ((handle {} (.addZone ⟨{}, "", "a", []⟩)).run ⟨.empty, []⟩).1 = .ok () :=
  ⟨rfl, rfl, rfl, rfl⟩

end Registry

end ExemptZones
