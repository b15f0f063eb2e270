import ExemptZones.Store.View

/-
What actions do to a session: how `Action.run` passes through the constructs that actions are made of,
and what each access to a store does while its database is there.

`Action.Does.transaction`: a block around work whose effect on the records is known. At the outermost level
its writes are kept if the work succeeds and gone if it fails; inside another block they stay either way.
-/

namespace ExemptZones

namespace Action

variable {α β : Type}

@[simp] theorem run_pure (a : α) (s : Session) : (pure a : Action α).run s = (.ok a, s) := rfl

@[simp] theorem run_fail (f : Failure) (s : Session) : (fail f : Action α).run s = (.error f, s) := rfl

@[simp] theorem run_blame (c : Cause) (s : Session) : (blame c : Action α).run s = (.error (.registry c), s) := rfl

@[simp] theorem run_store (s : Session) : store.run s = (.ok s.store, s) := rfl

@[simp] theorem run_setStore (t : Store) (s : Session) :
    (setStore t).run s = (.ok (), { s with store := t }) := rfl

@[simp] theorem run_bind (a : Action α) (f : α → Action β) (s : Session) :
    (a >>= f).run s = match a.run s with
      | (.ok x, s') => (f x).run s'
      | (.error e, s') => (.error e, s') := by
  change (ExceptT.bindCont f (a.run s).1 : StateM Session _).run (a.run s).2 = _
  rcases a.run s with ⟨e | x, s'⟩ <;> rfl

@[simp] theorem run_map (g : α → β) (a : Action α) (s : Session) :
    (g <$> a).run s = match a.run s with
      | (.ok x, s') => (.ok (g x), s')
      | (.error e, s') => (.error e, s') := by
  rw [map_eq_pure_bind, run_bind]; rfl

/-- Work that gives up at the first failure and goes on with `f`. -/
@[simp] theorem run_tryCatch (a : Action α) (f : Failure → Action α) (s : Session) :
    (tryCatch a f).run s = match a.run s with
      | (.ok x, s') => (.ok x, s')
      | (.error e, s') => (f e).run s' := by
  simp only [run, ExceptT.run_tryCatch, StateT.run_bind]
  rcases h : a.run s with ⟨e | x, s'⟩ <;> rw [show StateT.run (ExceptT.run a) s = _ from h] <;> rfl

theorem run_forM_cons (f : β → Action Unit) (x : β) (xs : List β) (s : Session) :
    ((x :: xs).forM f).run s = match (f x).run s with
      | (.ok _, s') => (xs.forM f).run s'
      | (.error e, s') => (.error e, s') := by
  rw [List.forM, run_bind]
  rcases (f x).run s with ⟨_ | _, _⟩ <;> rfl

/-- Answers for each item, none of which is a failure. -/
theorem run_mapM {f : α → Action β} {g : α → β} {s : Session} {xs : List α}
    (h : ∀ x ∈ xs, (f x).run s = (.ok (g x), s)) : (xs.mapM f).run s = (.ok (xs.map g), s) := by
  induction xs with
  | nil => rfl
  | cons x xs ih =>
    have hx := h x List.mem_cons_self
    have hxs := ih fun y hy => h y (List.mem_cons_of_mem _ hy)
    rw [List.mapM_cons, run_bind, hx]
    simp only [run_bind, hxs, run_pure, List.map_cons]

end Action

namespace Session

/-- The records as they stand now. -/
def records (s : Session) : Records :=
  s.store.working

/-- The session with other records, which are committed unless a block is open. -/
def write (s : Session) (r : Records) : Session :=
  { s with store := { s.store with working := r }.settle }

/-- The session with entries put before its log. -/
def tell (s : Session) (es : List Log.Entry) : Session :=
  { s with log := es ++ s.log }

/-- The database is there, and outside a block nothing waits to be committed. -/
structure Ready (s : Session) : Prop where
  live : s.store.link = .live
  settled : s.store.depth = 0 → s.store.committed = s.store.working

@[simp] theorem store_tell (s : Session) (es : List Log.Entry) : (s.tell es).store = s.store := rfl

@[simp] theorem records_tell (s : Session) (es : List Log.Entry) : (s.tell es).records = s.records := rfl

@[simp] theorem tell_nil (s : Session) : s.tell [] = s := rfl

theorem write_of_open {s : Session} (h : 0 < s.store.depth) (r : Records) :
    s.write r = { s with store := { s.store with working := r } } := by
  simp [write, Store.settle, Store.inTransaction, h]

theorem write_of_closed {s : Session} (h : s.store.depth = 0) (r : Records) :
    s.write r = { s with store := { s.store with working := r, committed := r } } := by
  simp [write, Store.settle, Store.inTransaction, Store.commit, h]

theorem closed_or_open (s : Session) : s.store.depth = 0 ∨ 0 < s.store.depth :=
  Nat.eq_zero_or_pos _

@[simp] theorem records_write (s : Session) (r : Records) : (s.write r).records = r := by
  rcases s.closed_or_open with h | h
  · rw [write_of_closed h]; rfl
  · rw [write_of_open h]; rfl

@[simp] theorem link_write (s : Session) (r : Records) : (s.write r).store.link = s.store.link := by
  rcases s.closed_or_open with h | h
  · rw [write_of_closed h]
  · rw [write_of_open h]

@[simp] theorem depth_write (s : Session) (r : Records) : (s.write r).store.depth = s.store.depth := by
  rcases s.closed_or_open with h | h
  · rw [write_of_closed h]
  · rw [write_of_open h]

@[simp] theorem write_write (s : Session) (r r' : Records) : (s.write r).write r' = s.write r' := by
  rcases s.closed_or_open with h | h
  · have h' : (s.write r).store.depth = 0 := by simpa using h
    rw [write_of_closed h', write_of_closed h, write_of_closed h]
  · have h' : 0 < (s.write r).store.depth := by simpa using h
    rw [write_of_open h', write_of_open h, write_of_open h]

theorem write_tell (s : Session) (es : List Log.Entry) (r : Records) :
    (s.tell es).write r = (s.write r).tell es := rfl

theorem tell_tell (s : Session) (es fs : List Log.Entry) : (s.tell es).tell fs = s.tell (fs ++ es) := by
  simp [tell]

theorem Ready.write_records {s : Session} (h : s.Ready) : s.write s.records = s := by
  rcases s.closed_or_open with hd | hd
  · rw [write_of_closed hd, records, ← h.settled hd]
    obtain ⟨⟨c, w, d, l⟩, log⟩ := s
    have hc : c = w := h.settled hd
    rw [hc]
  · rw [write_of_open hd]; rfl

theorem Ready.write {s : Session} (h : s.Ready) (r : Records) : (s.write r).Ready where
  live := by rw [link_write]; exact h.live
  settled hd := by
    rw [depth_write] at hd
    rw [write_of_closed hd]

theorem Ready.tell {s : Session} (h : s.Ready) (es : List Log.Entry) : (s.tell es).Ready :=
  ⟨h.live, h.settled⟩

end Session

@[simp] theorem Action.run_note (e : Log.Entry) (s : Session) : (note e).run s = (.ok (), s.tell [e]) := rfl

/-! ## Access to a store whose database is there -/

namespace Store

open ExemptZones.Action

variable {s : Session}

theorem run_get (hs : s.store.link = .live) (k : Bytes) : (get k).run s = (.ok (s.records.get? k), s) := by
  simp [get, reach, hs, Session.records]

theorem run_has (hs : s.store.link = .live) (k : Bytes) : (has k).run s = (.ok (s.records.get? k).isSome, s) := by
  simp [has, run_get hs]

theorem run_put (hs : s.store.link = .live) (operation : String) (r : Records) :
    (put operation s.store r).run s = (.ok (), s.write r) := by
  simp [put, wrote, hs, Link.wrote, Link.refusal?, Session.write]

theorem run_set (hs : s.store.link = .live) (k v : Bytes) :
    (set k v).run s = (.ok (), s.write (s.records.insert k v)) := by
  simp only [set, reach, run_bind, run_store, hs, run_pure]
  exact run_put hs "set" _

theorem run_delete (hs : s.store.link = .live) (k : Bytes) :
    (delete k).run s = (.ok (), s.write (s.records.erase k)) := by
  simp only [delete, reach, run_bind, run_store, hs, run_pure]
  exact run_put hs "delete" _

theorem run_scan (hs : s.store.link = .live) (start stop : Option Bytes) (reverse : Bool) :
    (scan start stop reverse).run s = (.ok (ordered reverse (s.records.range start stop)), s) := by
  simp [scan, reach, hs, Session.records]

theorem run_transaction {α : Type} (body : Action α) (s : Session) :
    (transaction body).run s =
      ((endBlock (body.run (enter s))).1, leave (endBlock (body.run (enter s))).2) := rfl

theorem open_enter (s : Session) : 0 < (enter s).store.depth := Nat.succ_pos _

theorem ready_enter (hs : s.store.link = .live) : (enter s).Ready :=
  ⟨hs, fun h => absurd h (Nat.succ_ne_zero _)⟩

/-- A block that ends well keeps its writes. -/
theorem run_transaction_ok {α : Type} {body : Action α} {y : α} {r : Records} {es : List Log.Entry}
    (hs : s.store.link = .live) (h : body.run (enter s) = (.ok y, ((enter s).write r).tell es)) :
    (transaction body).run s = (.ok y, (s.write r).tell es) := by
  rw [Session.write_of_open (open_enter s)] at h
  rw [run_transaction, h]
  rcases s.closed_or_open with hd | hd
  · simp [endBlock, enter, leave, Link.refusal?, commit, Session.tell, Session.write_of_closed hd, hd, hs]
  · have hne : s.store.depth ≠ 0 := Nat.ne_of_gt hd
    simp [endBlock, enter, leave, Session.tell, Session.write_of_open hd, hne]

/-- A failed block at the outermost level leaves the records as they were. -/
theorem run_transaction_error_closed {α : Type} {body : Action α} {f : Failure} {r : Records}
    {es : List Log.Entry} (hs : s.Ready) (hd : s.store.depth = 0)
    (h : body.run (enter s) = (.error f, ((enter s).write r).tell es)) :
    (transaction body).run s = (.error f, s.tell (.rolledBack :: es)) := by
  rw [Session.write_of_open (open_enter s)] at h
  rw [run_transaction, h]
  obtain ⟨⟨c, w, d, l⟩, log⟩ := s
  cases hd
  obtain rfl : c = w := hs.settled rfl
  obtain rfl : l = .live := hs.live
  rfl

/-- A failed block inside another leaves what it has written. -/
theorem run_transaction_error_open {α : Type} {body : Action α} {f : Failure} {r : Records}
    {es : List Log.Entry} (hd : 0 < s.store.depth)
    (h : body.run (enter s) = (.error f, ((enter s).write r).tell es)) :
    (transaction body).run s = (.error f, (s.write r).tell es) := by
  have hne : s.store.depth ≠ 0 := Nat.ne_of_gt hd
  rw [Session.write_of_open (open_enter s)] at h
  rw [run_transaction, h]
  simp [endBlock, abort, enter, leave, Session.tell, Session.write_of_open hd, hne]

end Store

/-! ## Work by its effect on the records -/

/-- From the session `s` the work ends in `x` and leaves the records `r`; what it logs is left open. -/
def Action.Does {α : Type} (a : Action α) (s : Session) (x : Except Failure α) (r : Records) : Prop :=
  ∃ es, a.run s = (x, (s.write r).tell es)

/-- The records after a block that ended in `x` with the records `r`. -/
def Session.kept {α : Type} (s : Session) (x : Except Failure α) (r : Records) : Records :=
  match x with
  | .ok _ => r
  | .error _ => if s.store.inTransaction then r else s.records

theorem Session.kept_error {α : Type} (s : Session) (f : Failure) :
    s.kept (.error f : Except Failure α) s.records = s.records := ite_self _

namespace Action.Does

variable {α β : Type} {a : Action α} {s : Session} {x : Except Failure α} {r : Records}

theorem pure (hs : s.Ready) (y : α) : (Pure.pure y : Action α).Does s (.ok y) s.records :=
  ⟨[], by simp [hs.write_records]⟩

theorem note (hs : s.Ready) (e : Log.Entry) : (Action.note e).Does s (.ok ()) s.records :=
  ⟨[e], by simp [hs.write_records]⟩

/-- The work goes on from a session in which as many blocks are open as at the start. -/
theorem bind_within {f : α → Action β} {y : α} {z : Except Failure β} {r' : Records} (hs : s.Ready)
    (ha : a.Does s (.ok y) r)
    (hf : ∀ t : Session, t.Ready → t.store.depth = s.store.depth → t.records = r → (f y).Does t z r') :
    (a >>= f).Does s z r' := by
  obtain ⟨es, he⟩ := ha
  obtain ⟨fs, hf⟩ := hf ((s.write r).tell es) ((hs.write r).tell es) (by simp) (by simp)
  refine ⟨fs ++ es, ?_⟩
  simp only [run_bind, he, hf, Session.write_tell, Session.write_write, Session.tell_tell]

theorem bind {f : α → Action β} {y : α} {z : Except Failure β} {r' : Records} (hs : s.Ready)
    (ha : a.Does s (.ok y) r) (hf : ∀ t : Session, t.Ready → t.records = r → (f y).Does t z r') :
    (a >>= f).Does s z r' :=
  bind_within hs ha fun t ht _ htr => hf t ht htr

/-- Work that gives up and is gone on with by a handler. -/
theorem rescue_within {f : Failure → Action α} {e : Failure} {z : Except Failure α} {r' : Records} (hs : s.Ready)
    (ha : a.Does s (.error e) r)
    (hf : ∀ t : Session, t.Ready → t.store.depth = s.store.depth → t.records = r → (f e).Does t z r') :
    (tryCatch a f).Does s z r' := by
  obtain ⟨es, he⟩ := ha
  obtain ⟨fs, hf⟩ := hf ((s.write r).tell es) ((hs.write r).tell es) (by simp) (by simp)
  refine ⟨fs ++ es, ?_⟩
  simp only [run_tryCatch, he, hf, Session.write_tell, Session.write_write, Session.tell_tell]

/-- Work that does not give up needs no handler. -/
theorem rescue_ok {f : Failure → Action α} {y : α} (ha : a.Does s (.ok y) r) : (tryCatch a f).Does s (.ok y) r := by
  obtain ⟨es, he⟩ := ha
  exact ⟨es, by simp [he]⟩

theorem bind_error {f : α → Action β} {e : Failure} (ha : a.Does s (.error e) r) :
    (a >>= f).Does s (.error e) r := by
  obtain ⟨es, he⟩ := ha
  exact ⟨es, by simp [he]⟩

theorem fail (hs : s.Ready) (f : Failure) : (Action.fail f : Action α).Does s (.error f) s.records :=
  ⟨[], by simp [hs.write_records]⟩

theorem notes (hs : s.Ready) (es : List Log.Entry) : (forM es Action.note).Does s (.ok ()) s.records := by
  induction es generalizing s with
  | nil => exact .pure hs ()
  | cons e es ih =>
    rw [List.forM_cons]
    exact .bind hs (.note hs e) fun t ht htr => htr ▸ ih ht

/-- Notes after the work change neither its end nor the records. -/
theorem then_notes {a : Action Unit} {x : Except Failure Unit} (hs : s.Ready) (ha : a.Does s x r)
    (es : List Log.Entry) : (do a; forM es Action.note).Does s x r := by
  cases x with
  | error f => exact .bind_error ha
  | ok _ => exact .bind hs ha fun t ht htr => htr ▸ .notes ht es

theorem transaction (hs : s.Ready) (h : a.Does (Store.enter s) x r) :
    (Store.transaction a).Does s x (s.kept x r) := by
  obtain ⟨es, he⟩ := h
  cases x with
  | ok y => exact ⟨es, Store.run_transaction_ok hs.live he⟩
  | error f =>
    rcases s.closed_or_open with hd | hd
    · refine ⟨.rolledBack :: es, ?_⟩
      rw [Store.run_transaction_error_closed hs hd he]
      simp [Session.kept, Store.inTransaction, hd, hs.write_records]
    · refine ⟨es, ?_⟩
      rw [Store.run_transaction_error_open hd he]
      simp [Session.kept, Store.inTransaction, hd]

end Action.Does

end ExemptZones
