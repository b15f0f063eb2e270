import ExemptZones.Proofs.Session

/-
Runs of steps grouped in blocks of the store, with failures caught at any level or at none.

`Script.upholds`: what every step keeps of the records holds in every state that a script passes through.
The blocks add nothing to prove: one that ends well commits records that have the property, and one that
fails goes back to committed records, which have it too.
-/

namespace ExemptZones

open ExemptZones.Action

/-- Steps in order, blocks around some of them, and places where a failure is caught. -/
inductive Script (ι : Type) where
  | done
  | step (i : ι)
  /-- Gives up, as the work around the steps may do. -/
  | raise (f : Failure)
  | seq (a b : Script ι)
  | block (a : Script ι)
  /-- Goes on as `handler` says if `a` fails; a handler may pass the failure on. -/
  | rescue (a : Script ι) (handler : Failure → Script ι)

namespace Script

variable {ι : Type} (perform : ι → Action Unit)

def run : Script ι → Action Unit
  | .done => pure ()
  | .step i => perform i
  | .raise f => fail f
  | .seq a b => do a.run; b.run
  | .block a => Store.transaction a.run
  | .rescue a handler => tryCatch a.run fun f => (handler f).run

/-- The sessions that a script passes through: after each step, and where a block opens and ends. -/
def states : Script ι → Session → List Session
  | .done, _ | .raise _, _ => []
  | .step i, s => [((perform i).run s).2]
  | .seq a b, s =>
    a.states s ++
      match (a.run perform).run s with
      | (.ok _, s') => b.states s'
      | (.error _, _) => []
  | .block a, s => Store.enter s :: a.states (Store.enter s) ++ [((Store.transaction (a.run perform)).run s).2]
  | .rescue a handler, s =>
    a.states s ++
      match (a.run perform).run s with
      | (.ok _, _) => []
      | (.error f, s') => (handler f).states s'

end Script

/-- The session is ready, and the records have the property `P` as committed and as they stand now. -/
structure Session.Upholds (P : Records → Prop) (s : Session) : Prop extends s.Ready where
  committed : P s.store.committed
  working : P s.records

/-- As `Upholds`, along a run that began when `depth` blocks were open. If there were any, nothing is asked of the
committed records, since no failure on the way brings them back. -/
structure Session.UpholdsFrom (depth : Nat) (P : Records → Prop) (s : Session) : Prop extends s.Ready where
  deep : depth ≤ s.store.depth
  committed : depth = 0 → P s.store.committed
  working : P s.records

theorem Session.upholds_iff {P : Records → Prop} {s : Session} : s.Upholds P ↔ s.UpholdsFrom 0 P :=
  ⟨fun h => { h with deep := Nat.zero_le _, committed := fun _ => h.committed },
    fun h => { h with committed := h.committed rfl }⟩

namespace Session.UpholdsFrom

variable {P : Records → Prop} {depth : Nat} {s t : Session}

/-- Where a run begins. -/
theorem beginning (hs : s.Ready) (hP : P s.records) : s.UpholdsFrom s.store.depth P :=
  { hs with deep := Nat.le_refl _, committed := fun hd => hs.settled hd ▸ hP, working := hP }

theorem enter (h : s.UpholdsFrom depth P) : (Store.enter s).UpholdsFrom depth P :=
  { Store.ready_enter h.live with
    deep := Nat.le_succ_of_le h.deep, committed := h.committed, working := h.working }

/-- The end of a block keeps a property of the records, whether the work in it was done or failed. -/
theorem endBlock {x : Except Failure Unit} (hs : depth ≤ s.store.depth) (h : t.UpholdsFrom depth P)
    (hd : t.store.depth = s.store.depth + 1) :
    (Store.leave (Store.endBlock (x, t)).2).UpholdsFrom depth P ∧
      (Store.leave (Store.endBlock (x, t)).2).store.depth = s.store.depth := by
  obtain ⟨⟨c, w, d, l⟩, log⟩ := t
  obtain ⟨⟨hl, -⟩, -, hc, hw⟩ := h
  cases hl
  cases hd
  by_cases h0 : s.store.depth = 0
  · obtain rfl : depth = 0 := Nat.le_zero.1 (h0 ▸ hs)
    cases x with
    | ok _ =>
      simpa [Store.endBlock, Store.leave, Link.refusal?, Store.commit, h0] using
        ⟨⟨rfl, fun _ => rfl⟩, Nat.zero_le _, fun _ => hw, hw⟩
    | error f =>
      simpa [Store.endBlock, Store.abort, Store.leave, Link.loss?, Link.eased, Store.rollBack, h0] using
        ⟨⟨rfl, fun _ => rfl⟩, Nat.zero_le _, fun _ => hc rfl, hc rfl⟩
  · have hready : ∀ r, (⟨⟨c, r, s.store.depth, .live⟩, log⟩ : Session).Ready := fun _ => ⟨rfl, fun h => absurd h h0⟩
    cases x with
    | ok _ => simpa [Store.endBlock, Store.leave, h0] using ⟨hready _, hs, hc, hw⟩
    | error f => simpa [Store.endBlock, Store.abort, Store.leave, h0] using ⟨hready _, hs, hc, hw⟩

/-- Work that leaves records with the property. -/
theorem of_does {α : Type} {a : Action α} {x : Except Failure α} {r : Records} (h : s.UpholdsFrom depth P)
    (ha : a.Does s x r) (hr : P r) :
    (a.run s).2.UpholdsFrom depth P ∧ (a.run s).2.store.depth = s.store.depth := by
  obtain ⟨es, he⟩ := ha
  rw [he]
  refine ⟨{ (h.write r).tell es with
    deep := by simpa using h.deep, committed := fun h0 => ?_, working := by simpa using hr }, by simp⟩
  rcases s.closed_or_open with hd | hd
  · rw [Session.write_of_closed hd]; exact hr
  · rw [Session.write_of_open hd]; exact h.committed h0

end Session.UpholdsFrom

theorem Session.Upholds.of_does {P : Records → Prop} {s : Session} {α : Type} {a : Action α} {x : Except Failure α}
    {r : Records} (h : s.Upholds P) (ha : a.Does s x r) (hr : P r) :
    (a.run s).2.Upholds P ∧ (a.run s).2.store.depth = s.store.depth := by
  simp only [Session.upholds_iff] at h ⊢
  exact h.of_does ha hr

namespace Script

variable {ι : Type} {perform : ι → Action Unit}

/-- What every step keeps, and what entering a block and leaving it keep, holds in every state that a script
passes through. At the end as many blocks are open as at the start. -/
theorem keeps {I : Session → Prop}
    (hstep : ∀ i s, I s → I ((perform i).run s).2 ∧ ((perform i).run s).2.store.depth = s.store.depth)
    (henter : ∀ s, I s → I (Store.enter s))
    (hend : ∀ s t (x : Except Failure Unit), I s → I t → t.store.depth = s.store.depth + 1 →
      I (Store.leave (Store.endBlock (x, t)).2) ∧
        (Store.leave (Store.endBlock (x, t)).2).store.depth = s.store.depth)
    (a : Script ι) {s : Session} (hs : I s) :
    (∀ t ∈ a.states perform s, I t) ∧
      I ((a.run perform).run s).2 ∧ ((a.run perform).run s).2.store.depth = s.store.depth := by
  induction a generalizing s with
  | done | raise => simpa [states, run] using hs
  | step i =>
    have h := hstep i s hs
    exact ⟨fun t ht => by simp only [states, List.mem_singleton] at ht; exact ht ▸ h.1, h⟩
  | seq a b iha ihb =>
    obtain ⟨has, hae, had⟩ := iha hs
    simp only [states, run, run_bind, List.mem_append]
    rcases hr : (a.run perform).run s with ⟨f | _, s'⟩ <;> rw [hr] at hae had
    · exact ⟨fun t ht => has t (by simpa using ht), hae, had⟩
    · obtain ⟨hbs, hbe, hbd⟩ := ihb hae
      exact ⟨fun t ht => ht.elim (has t) (hbs t), hbe, hbd.trans had⟩
  | block a ih =>
    obtain ⟨has, hae, had⟩ := ih (henter s hs)
    have he := hend s _ ((a.run perform).run (Store.enter s)).1 hs hae had
    refine ⟨fun t ht => ?_, he⟩
    simp only [states, List.cons_append, List.mem_cons, List.mem_append, List.not_mem_nil, or_false] at ht
    rcases ht with rfl | ht | rfl
    · exact henter s hs
    · exact has t ht
    · exact he.1
  | rescue a handler iha ihb =>
    obtain ⟨has, hae, had⟩ := iha hs
    simp only [states, run, run_tryCatch, List.mem_append]
    rcases hr : (a.run perform).run s with ⟨f | _, s'⟩ <;> rw [hr] at hae had
    · obtain ⟨hbs, hbe, hbd⟩ := ihb f hae
      exact ⟨fun t ht => ht.elim (has t) (hbs t), hbe, hbd.trans had⟩
    · exact ⟨fun t ht => has t (by simpa using ht), hae, had⟩

/-- A property of the records that every step keeps holds all along, also of a script that runs inside a block. -/
theorem upholdsFrom {P : Records → Prop} {depth : Nat}
    (hstep : ∀ i s, s.UpholdsFrom depth P →
      ((perform i).run s).2.UpholdsFrom depth P ∧ ((perform i).run s).2.store.depth = s.store.depth)
    (a : Script ι) {s : Session} (hs : s.UpholdsFrom depth P) :
    (∀ t ∈ a.states perform s, t.UpholdsFrom depth P) ∧
      ((a.run perform).run s).2.UpholdsFrom depth P ∧
      ((a.run perform).run s).2.store.depth = s.store.depth :=
  a.keeps hstep (fun _ h => h.enter) (fun _ _ _ hs ht hd => ht.endBlock hs.deep hd) hs

/-- **A property of the records that every step keeps holds all along.** Every state that a script passes
through has it, and at the end as many blocks are open as at the start. -/
theorem upholds {P : Records → Prop}
    (hstep : ∀ i s, s.Upholds P →
      ((perform i).run s).2.Upholds P ∧ ((perform i).run s).2.store.depth = s.store.depth)
    (a : Script ι) {s : Session} (hs : s.Upholds P) :
    (∀ t ∈ a.states perform s, t.Upholds P) ∧
      ((a.run perform).run s).2.Upholds P ∧ ((a.run perform).run s).2.store.depth = s.store.depth := by
  simp only [Session.upholds_iff] at hstep hs ⊢
  exact a.upholdsFrom hstep hs

/-- The session at the end of a script is one that it passes through, or the first. -/
theorem end_mem_states (a : Script ι) (s : Session) : ((a.run perform).run s).2 ∈ s :: a.states perform s := by
  induction a generalizing s with
  | done | raise => simp [run]
  | step i => simp [run, states]
  | seq a b iha ihb =>
    have ha := iha s
    simp only [states, run, run_bind]
    rcases hr : (a.run perform).run s with ⟨f | _, s'⟩ <;> rw [hr] at ha
    · simpa using ha
    · have hb := ihb s'
      simp only [List.mem_cons, List.mem_append] at ha hb ⊢
      rcases hb with hb | hb
      · rw [hb]
        exact ha.imp_right .inl
      · exact .inr (.inr hb)
  | block a ih => simp [run, states]
  | rescue a handler iha ihb =>
    have ha := iha s
    simp only [states, run, run_tryCatch]
    rcases hr : (a.run perform).run s with ⟨f | _, s'⟩ <;> rw [hr] at ha
    · have hb := ihb f s'
      simp only [List.mem_cons, List.mem_append] at ha hb ⊢
      rcases hb with hb | hb
      · rw [hb]
        exact ha.imp_right .inl
      · exact .inr (.inr hb)
    · simpa using ha

end Script

end ExemptZones
