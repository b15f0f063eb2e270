import ExemptZones.Proofs.Edit
import ExemptZones.Registry.Genesis
import ExemptZones.Registry.Messages
import ExemptZones.Registry.Migration

/-
Changes of the registry: an edit by itself, a message, an import, a migration. Each is a check that needs no
record and a batch of edits, made in one block.

`Change.does`: what a change does to a session, as a function of the records it starts from.
-/

namespace ExemptZones.Registry

open ExemptZones.Action

/-! ## Batches of edits -/

/-- Edits one after the other, up to the first that fails: how they end, and the records they leave. -/
def Edit.batch (cfg : Settings) : List Edit → Records → Except Failure Unit × Records
  | [], r => (.ok (), r)
  | e :: es, r =>
    match e.plan cfg r with
    | .ok (r', _) => batch cfg es r'
    | .error f => (.error f, r)

theorem Edit.batch_cons_ok {cfg : Settings} {e : Edit} {r : Records} {p : Records × List Log.Entry}
    (h : e.plan cfg r = .ok p) (es : List Edit) : batch cfg (e :: es) r = batch cfg es p.1 := by
  rw [batch, h]

theorem Edit.batch_cons_error {cfg : Settings} {e : Edit} {r : Records} {f : Failure}
    (h : e.plan cfg r = .error f) (es : List Edit) : batch cfg (e :: es) r = (.error f, r) := by
  rw [batch, h]

/-- What each edit of a list keeps, the list keeps, also if it fails half-way. -/
theorem Edit.batch_keeps {cfg : Settings} {P : Records → Prop} {es : List Edit}
    (h : ∀ e ∈ es, ∀ r r', e.Makes cfg.addressPrefix r r' → P r → P r') {r : Records} (hr : P r) :
    P (batch cfg es r).2 := by
  induction es generalizing r with
  | nil => exact hr
  | cons e es ih =>
    obtain ⟨he, hes⟩ := List.forall_mem_cons.1 h
    cases hp : e.plan cfg r with
    | error f =>
      rw [batch_cons_error hp]
      exact hr
    | ok p =>
      rw [batch_cons_ok hp]
      exact ih hes (he r p.1 (makes_of_plan hp) hr)

theorem Edit.does_act (cfg : Settings) {s : Session} (hs : s.Ready) (e : Edit) :
    (e.act cfg).Does s (batch cfg [e] s.records).1 (batch cfg [e] s.records).2 := by
  unfold Action.Does
  rw [run_act cfg hs, ending]
  cases h : e.plan cfg s.records with
  | ok p => exact ⟨p.2, by rw [batch_cons_ok h]; rfl⟩
  | error f => exact ⟨[], by rw [batch_cons_error h]; simp [hs.write_records]⟩

theorem Edit.does_forM (cfg : Settings) (es : List Edit) {s : Session} (hs : s.Ready) :
    (forM es (act cfg)).Does s (batch cfg es s.records).1 (batch cfg es s.records).2 := by
  induction es generalizing s with
  | nil => exact .pure hs ()
  | cons e es ih =>
    rw [List.forM_cons]
    have he := Edit.does_act cfg hs e
    cases h : e.plan cfg s.records with
    | error f =>
      rw [batch_cons_error h] at he ⊢
      exact .bind_error he
    | ok p =>
      rw [batch_cons_ok h] at he ⊢
      refine .bind hs he fun t ht htr => ?_
      rw [← show t.records = p.1 from htr]
      exact ih ht

theorem forM_flatMap {α β : Type} (f : α → List β) (g : β → Action Unit) (xs : List α) :
    forM (xs.flatMap f) g = forM xs fun x => forM (f x) g := by
  induction xs with
  | nil => rfl
  | cons x xs ih => rw [List.flatMap_cons, List.forM_append, List.forM_cons, ih]

/-! ## Changes -/

/-- A change of the registry, as it may be asked for. -/
inductive Change where
  | edit (e : Edit)
  | message (m : Message)
  | importState (g : GenesisDraft)
  | migrate (addresses : List Text) (zone : Text)

namespace Change

def act (cfg : Settings) : Change → Action Unit
  | .edit e => e.act cfg
  | .message m => handle cfg m
  | .importState g => Registry.importState cfg g
  | .migrate addresses zone => do
    let _ ← Registry.migrate cfg addresses zone

/-- The edits that a change is made of. -/
def edits : Change → List Edit
  | .edit e => [e]
  | .message (.addZone c) => .addZone c.toZone :: c.addresses.map (.addAddress c.zone)
  | .message (.modifyZone c) => .modifyZone c.toZone :: c.addresses.map (.addAddress c.zone)
  | .message (.removeZone c) => [.removeZone c.zone]
  | .message (.addAddresses c) => c.addresses.map (.addAddress c.zone)
  | .message (.removeAddresses c) => c.addresses.map (.removeAddress c.zone)
  | .importState g => g.zones.map .addZone ++ g.groups.flatMap fun p => p.addresses.map (.addAddress p.zone)
  | .migrate addresses zone => .addZone ⟨{}, zone⟩ :: addresses.map (.addAddress zone)

/-- What is asked of a change before the first edit. -/
def check (cfg : Settings) : Change → Except Failure Unit
  | .message m =>
    if m.authority ≠ cfg.authority then .error (.registry (.unauthorized cfg.authority m.authority))
    else if m.zone.isEmpty then .error (.registry .emptyZoneName)
    else .ok ()
  | _ => .ok ()

/-- Whether the edits are made in a block. A single edit needs none. -/
def grouped : Change → Bool
  | .edit _ | .message (.removeZone _) => false
  | _ => true

/-- What is logged when a change is made, besides what its edits log. -/
def notes : Change → List Log.Entry
  | .edit _ => []
  | .message (.addZone c) => [.messageAddedZone c.zone c.addresses.length]
  | .message (.modifyZone c) => [.messageModifiedZone c.zone]
  | .message (.removeZone c) => [.messageRemovedZone c.zone]
  | .message (.addAddresses c) => [.messageAddedAddresses c.addresses.length c.zone]
  | .message (.removeAddresses c) => [.messageRemovedAddresses c.addresses.length c.zone]
  | .importState g => [.imported g.zones.length g.addressCount]
  | .migrate addresses zone => [.migrated addresses.length zone]

/-- The edits of a change, made in the way it makes them. -/
def work (cfg : Settings) (c : Change) : Action Unit :=
  if c.grouped then Store.transaction (forM c.edits (Edit.act cfg)) else forM c.edits (Edit.act cfg)

/-- The effect of a change is its edits and its notes. -/
theorem apply_eq (cfg : Settings) (m : Message) :
    apply cfg m = (do (message m).work cfg; forM (message m).notes note) := by
  cases m <;> simp [apply, work, grouped, notes, edits, Edit.act, List.forM_cons, List.forM_map]

/-- Every change has the same form: a check, edits, and notes. -/
theorem act_eq (cfg : Settings) (c : Change) :
    c.act cfg = (do Action.ofExcept (c.check cfg); c.work cfg; forM c.notes note) := by
  cases c with
  | edit e => simp [act, check, Action.ofExcept, work, grouped, notes, edits]
  | message m =>
    simp only [act, handle, apply_eq, requireAuthority, requireName, check]
    by_cases ha : m.authority = cfg.authority
    · by_cases hn : m.zone.isEmpty = true <;> simp [ha, hn, Action.ofExcept, blame]
    · simp [ha, Action.ofExcept, blame]
  | importState g =>
    have hg : addGroup cfg = fun p => forM p.addresses (addAddress cfg p.zone) := rfl
    simp [act, Registry.importState, hg, check, Action.ofExcept, work, grouped, notes, edits, Edit.act,
      List.forM_append, List.forM_map, forM_flatMap]
  | migrate addresses zone =>
    simp [act, Registry.migrate, check, Action.ofExcept, work, grouped, notes, edits, Edit.act, List.forM_cons,
      List.forM_map]

/-- How a change ends, and the records it leaves if nothing is taken back. -/
def result (cfg : Settings) (c : Change) (r : Records) : Except Failure Unit × Records :=
  match c.check cfg with
  | .ok _ => Edit.batch cfg c.edits r
  | .error f => (.error f, r)

theorem result_keeps {cfg : Settings} {P : Records → Prop} {c : Change}
    (h : ∀ e ∈ c.edits, ∀ r r', e.Makes cfg.addressPrefix r r' → P r → P r') {r : Records} (hr : P r) :
    P (c.result cfg r).2 := by
  unfold result
  split
  · exact Edit.batch_keeps h hr
  · exact hr

theorem exists_of_not_grouped {c : Change} (h : c.grouped = false) : ∃ e, c.edits = [e] := by
  cases c with
  | edit e => exact ⟨e, rfl⟩
  | message m =>
    cases m with
    | removeZone c => exact ⟨.removeZone c.zone, rfl⟩
    | addZone | modifyZone | addAddresses | removeAddresses => cases h
  | importState | migrate => cases h

/-- An edit by itself leaves nothing behind if it fails, with or without a block around it. -/
theorem kept_batch_singleton (cfg : Settings) (s : Session) (e : Edit) :
    s.kept (Edit.batch cfg [e] s.records).1 (Edit.batch cfg [e] s.records).2 =
      (Edit.batch cfg [e] s.records).2 := by
  cases h : e.plan cfg s.records with
  | ok p => rw [Edit.batch_cons_ok h]; rfl
  | error f => rw [Edit.batch_cons_error h]; exact s.kept_error f

/-- Outside a block nothing stays of the edits if one fails. -/
theorem does_work (cfg : Settings) {s : Session} (hs : s.Ready) (c : Change) :
    (c.work cfg).Does s (Edit.batch cfg c.edits s.records).1
      (s.kept (Edit.batch cfg c.edits s.records).1 (Edit.batch cfg c.edits s.records).2) := by
  unfold work
  split
  · exact .transaction hs (Edit.does_forM cfg c.edits (Store.ready_enter hs.live))
  · rename_i hg
    obtain ⟨e, he⟩ := exists_of_not_grouped (Bool.eq_false_of_not_eq_true hg)
    rw [he, kept_batch_singleton]
    exact Edit.does_forM cfg [e] hs

/-- **What a change does.** It ends as its edits do, and leaves what they leave; outside a block nothing of
it stays if it fails. -/
theorem does (cfg : Settings) {s : Session} (hs : s.Ready) (c : Change) :
    (c.act cfg).Does s (c.result cfg s.records).1
      (s.kept (c.result cfg s.records).1 (c.result cfg s.records).2) := by
  rw [act_eq, result]
  cases c.check cfg with
  | error f =>
    show Action.Does _ s (.error f) (s.kept (.error f : Except Failure Unit) s.records)
    rw [s.kept_error]
    exact .bind_error (Action.Does.fail hs f)
  | ok _ => exact .then_notes hs (does_work cfg hs c) c.notes

end Change

end ExemptZones.Registry
