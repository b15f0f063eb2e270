import ExemptZones.Proofs.Obstruction

/-
A change is made as a whole or not at all. Outside a block a change that fails leaves the store as it was,
whatever the records are: also records that no change would write, and also a store whose database is gone.
There is one exception. An edit of a single record opens no block, and if another connection reads the database, what
the edit wrote stays in the records as they stand.

`Call.step`: what a call does to the store depends on the store alone, and is nothing if it fails.
`replay`: of a sequence of calls, those that failed can be left out.
-/

namespace ExemptZones.Registry

open ExemptZones.Action

/-! ## Calls -/

/-- A change asked of a registry that is set up in some way. -/
structure Call where
  settings : Settings
  change : Change

namespace Call

def act (c : Call) : Action Unit :=
  c.change.act c.settings

/-- The call writes without opening a block while another connection reads the database. -/
def Exposed (c : Call) (s : Store) : Prop :=
  c.change.loose = true ∧ ∃ waiting, s.link = .held waiting

/-- A call on an obstructed store. -/
theorem steady (c : Call) {s : Store} (hs : Obstructed s) (hd : s.depth = 0) :
    ∃ x s', (s' = s ∨ c.Exposed s ∧ Waits s s' ∧ Refused x) ∧ Leads c.act s x s' := by
  by_cases hc : c.change.loose = true
  · obtain ⟨e, he⟩ := Change.eq_edit_of_loose hc
    obtain ⟨x, s', hs', hx⟩ := steady_edit c.settings e s hs
    refine ⟨x, s', hs'.imp_right fun ⟨hw, hr⟩ => ⟨⟨hc, hw.held⟩, hw, hr hd⟩, ?_⟩
    rw [act, he]
    exact hx
  · obtain ⟨x, hx⟩ := Spares.change hs hd c.settings (Bool.eq_false_of_not_eq_true hc)
    exact ⟨x, s, .inl rfl, hx⟩

/-- **One call.** How it ends and the store after it depend on the store alone. A call that fails leaves
the store as it was. -/
theorem step (c : Call) {s : Store} (hs : Quiet s) (hc : ¬c.Exposed s) :
    ∃ x s', Quiet s' ∧ s'.link = s.link ∧ (∀ f, x = .error f → s' = s) ∧ Leads c.act s x s' := by
  by_cases hl : s.link = .live
  · have hr : ∀ log, (⟨s, log⟩ : Session).Ready := fun log => ⟨hl, fun _ => hs.settled⟩
    let x := (c.change.result c.settings s.working).1
    let r := (⟨s, []⟩ : Session).kept x (c.change.result c.settings s.working).2
    refine ⟨x, { s with working := r, committed := r }, ⟨hs.closed, rfl, hs.eased⟩, rfl, fun f hf => ?_, fun log => ?_⟩
    · have hk : r = s.working := by simp [r, hf, Session.kept, Store.inTransaction, hs.closed, Session.records]
      obtain ⟨c, w, d, l⟩ := s
      obtain rfl : c = w := hs.settled
      rw [hk]
    · obtain ⟨es, he⟩ := c.change.does c.settings (hr log)
      rw [Session.write_of_closed hs.closed] at he
      exact ⟨_, he⟩
  · obtain ⟨x, s', hs', hx⟩ := c.steady ⟨hl, fun _ => hs⟩ hs.closed
    obtain rfl : s' = s := hs'.resolve_right fun h => hc h.1
    exact ⟨x, s', hs, rfl, fun _ _ => rfl, hx⟩

end Call

/-! ## Sequences of calls -/

/-- Calls one after the other, whether or not they fail. -/
def attempt : List Call → Session → Session
  | [], s => s
  | c :: cs, s => attempt cs (c.act.run s).2

/-- The calls that are made when the others fail. -/
def succeeded : List Call → Session → List Call
  | [], _ => []
  | c :: cs, s =>
    match c.act.run s with
    | (.ok _, s') => c :: succeeded cs s'
    | (.error _, s') => succeeded cs s'

/-- The calls that succeeded succeed again without the others, and lead to the same store. -/
theorem replay (cs : List Call) {s : Store} (hs : Quiet s) (hcs : ∀ c ∈ cs, ¬c.Exposed s) (log log' : List Log.Entry) :
    ∃ log'', (forM (succeeded cs ⟨s, log⟩) Call.act).run ⟨s, log'⟩ =
      (.ok (), ⟨(attempt cs ⟨s, log⟩).store, log''⟩) := by
  induction cs generalizing s log log' with
  | nil => exact ⟨log', rfl⟩
  | cons c cs ih =>
    obtain ⟨hc, hcs⟩ := List.forall_mem_cons.1 hcs
    obtain ⟨x, s', hq, hl, hf, hrun⟩ := c.step hs hc
    have hcs' : ∀ c ∈ cs, ¬c.Exposed s' := by simpa only [Call.Exposed, hl] using hcs
    obtain ⟨es, h₁⟩ := hrun log
    simp only [succeeded, attempt, h₁]
    cases x with
    | ok _ =>
      obtain ⟨fs, h₂⟩ := hrun log'
      rw [List.forM_cons, run_bind, h₂]
      exact ih hq hcs' (es ++ log) (fs ++ log')
    | error f =>
      obtain rfl := hf f rfl
      exact ih hq hcs' (es ++ log) log'

/-- A message from anyone but the authority is turned away. -/
theorem handle_unauthorized (cfg : Settings) (m : Message) (h : m.authority ≠ cfg.authority) (s : Session) :
    (handle cfg m).run s = (.error (.registry (.unauthorized cfg.authority m.authority)), s) := by
  rw [handle, requireAuthority, if_neg h]
  rfl

/-- An edit of one record while another connection reads the database: it fails, and the record waits. -/
example : ∃ r, (addZone (⟨{}, "a"⟩ : Zone)).run ⟨{ Store.empty with link := .held false }, []⟩ =
    (.error (.registry (.writeFailed "set" "database is locked")), ⟨⟨.empty, r, 0, .held true⟩, []⟩) ∧
      (r.get? (zoneKey "a")).isSome :=
  ⟨_, rfl, rfl⟩

end ExemptZones.Registry
