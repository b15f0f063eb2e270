import ExemptZones.Proofs.Script

/-
Blocks of the store, nested to any depth, around accesses to it and failures that are caught at any level
or at none. How such a script goes can be told without a store: the accesses it makes, and the failure that
leaves it (`Script.course`).

`Script.does_open`: inside a block every access takes effect on the records as they stand, also those of an
inner block that failed.
`Script.committed_of_open`: and nothing of it is committed.
`blocks_nest`: what is committed, and what is taken back, is decided where the outermost block ends.
-/

namespace ExemptZones

open ExemptZones.Action

/-! ## Accesses -/

/-- One access to the store. What it answers is not used. -/
inductive Access where
  | get (k : Bytes)
  | has (k : Bytes)
  | set (k v : Bytes)
  | delete (k : Bytes)

namespace Access

def act : Access → Action Unit
  | .get k => do let _ ← Store.get k
  | .has k => do let _ ← Store.has k
  | .set k v => Store.set k v
  | .delete k => Store.delete k

/-- What an access makes of a map of records. -/
def apply (r : Records) : Access → Records
  | .get _ | .has _ => r
  | .set k v => r.insert k v
  | .delete k => r.erase k

/-- An access to a store whose database is there does not fail. -/
theorem does {s : Session} (hs : s.Ready) (i : Access) : i.act.Does s (.ok ()) (i.apply s.records) := by
  cases i with
  | get k => exact ⟨[], by simp [act, apply, Store.run_get hs.live, hs.write_records]⟩
  | has k => exact ⟨[], by simp [act, apply, Store.run_has hs.live, hs.write_records]⟩
  | set k v => exact ⟨[], by simp [act, apply, Store.run_set hs.live]⟩
  | delete k => exact ⟨[], by simp [act, apply, Store.run_delete hs.live]⟩

/-- An access keeps the session ready, and as many blocks open as there were. -/
theorem upholds {s : Session} (i : Access) (hs : s.Upholds fun _ => True) :
    (i.act.run s).2.Upholds (fun _ => True) ∧ (i.act.run s).2.store.depth = s.store.depth :=
  hs.of_does (i.does hs.toReady) trivial

end Access

namespace Script

/-! ## The course of a script -/

/-- The steps that a script takes, in order, and how it ends, if no step fails by itself. Blocks make no
difference to either. -/
def course {ι : Type} : Script ι → List ι × Except Failure Unit
  | .done => ([], .ok ())
  | .step i => ([i], .ok ())
  | .raise f => ([], .error f)
  | .seq a b =>
    match a.course with
    | (is, .ok _) => (is ++ b.course.1, b.course.2)
    | (is, .error f) => (is, .error f)
  | .block a => a.course
  | .rescue a handler =>
    match a.course with
    | (is, .ok _) => (is, .ok ())
    | (is, .error f) => (is ++ (handler f).course.1, (handler f).course.2)

/-- The records after the accesses of a script, those before a failure included. -/
def effect (a : Script Access) (r : Records) : Records :=
  a.course.1.foldl Access.apply r

/-- **Inside a block every access takes effect**, whether or not an inner block that it is made in fails. -/
theorem does_open (a : Script Access) {s : Session} (hs : s.Ready) (hd : 0 < s.store.depth) :
    (a.run Access.act).Does s a.course.2 (a.effect s.records) := by
  induction a generalizing s with
  | done => exact .pure hs ()
  | step i => exact i.does hs
  | raise f => exact .fail hs f
  | seq a b iha ihb =>
    have ha := iha hs hd
    simp only [run, effect, course] at ha ⊢
    rcases hc : a.course with ⟨is, f | _⟩ <;> rw [hc] at ha
    · exact .bind_error ha
    · refine .bind_within hs ha fun t ht htd htr => ?_
      have hb := ihb ht (htd ▸ hd)
      rw [htr] at hb
      simpa only [effect, List.foldl_append] using hb
  | block a ih =>
    have ha := Action.Does.transaction hs (ih (Store.ready_enter hs.live) (Store.open_enter s))
    have hin : s.store.inTransaction = true := by simpa [Store.inTransaction] using hd
    have hk : ∀ (x : Except Failure Unit) r, s.kept x r = r := fun x r => by
      cases x <;> simp [Session.kept, hin]
    rw [hk] at ha
    exact ha
  | rescue a handler iha ihb =>
    have ha := iha hs hd
    simp only [run, effect, course] at ha ⊢
    rcases hc : a.course with ⟨is, f | _⟩ <;> rw [hc] at ha
    · refine .rescue_within hs ha fun t ht htd htr => ?_
      have hb := ihb f ht (htd ▸ hd)
      rw [htr] at hb
      simpa only [effect, List.foldl_append] using hb
    · exact .rescue_ok ha

/-- **Inside a block nothing is committed.** -/
theorem committed_of_open (a : Script Access) {s : Session} (hs : s.Ready) (hd : 0 < s.store.depth) :
    ∀ t ∈ a.states Access.act s, 0 < t.store.depth ∧ t.store.committed = s.store.committed := by
  let I : Session → Prop := fun t => t.Ready ∧ 0 < t.store.depth ∧ t.store.committed = s.store.committed
  have hstep : ∀ i t, I t → I ((Access.act i).run t).2 ∧ ((Access.act i).run t).2.store.depth = t.store.depth := by
    rintro i t ⟨ht, htd, htc⟩
    obtain ⟨es, he⟩ := i.does ht
    rw [he]
    have hc : ((t.write (i.apply t.records)).tell es).store.committed = t.store.committed := by
      rw [Session.write_of_open htd]; rfl
    exact ⟨⟨(ht.write _).tell es, by simpa using htd, hc.trans htc⟩, by simp⟩
  have henter : ∀ t, I t → I (Store.enter t) := fun t ht =>
    ⟨Store.ready_enter ht.1.live, Store.open_enter t, ht.2.2⟩
  have hend : ∀ t u (x : Except Failure Unit), I t → I u → u.store.depth = t.store.depth + 1 →
      I (Store.leave (Store.endBlock (x, u)).2) ∧
        (Store.leave (Store.endBlock (x, u)).2).store.depth = t.store.depth := by
    rintro t u x ⟨-, htd, -⟩ ⟨hu, -, huc⟩ hud
    -- The block is not the outermost, so its end changes nothing but the depth.
    have hne : t.store.depth ≠ 0 := Nat.ne_of_gt htd
    have hleave : (Store.endBlock (x, u)).2 = u := by
      cases x <;> simp [Store.endBlock, Store.abort, hud, hne]
    rw [hleave]
    have hd' : (Store.leave u).store.depth = t.store.depth := by simp [Store.leave, hud]
    exact ⟨⟨⟨hu.live, fun h => absurd (hd' ▸ h) hne⟩, hd' ▸ htd, huc⟩, hd'⟩
  intro t ht
  exact (((a.keeps hstep henter hend ⟨hs, hd, rfl⟩).1 t ht).2)

end Script

/-! ## Blocks -/

/-- A block around a script, wherever it stands: it ends as the script does, and leaves as many blocks open
as there were. -/
theorem Script.run_block (a : Script Access) {s : Session} (hs : s.Ready) :
    ∃ es, ((Script.block a).run Access.act).run s =
      (a.course.2, (s.write (s.kept a.course.2 (a.effect s.records))).tell es) :=
  Action.Does.transaction hs (a.does_open (Store.ready_enter hs.live) (Store.open_enter s))

/-- **Blocks nest.** While a block is open nothing is committed. When the outermost block ends well, every
access made in it has taken effect and is committed, in the order in which they were made; when a failure
leaves it, all is as it was where it opened. Any other block leaves both to the blocks around it. A block
leaves the depth as it was, and whenever no block is open what is committed is what stands; so an access
after a block that failed commits itself and nothing of the block. -/
theorem blocks_nest (a : Script Access) (s : Session) (hs : s.Ready) :
    (∀ t ∈ a.states Access.act (Store.enter s), 0 < t.store.depth ∧ t.store.committed = s.store.committed) ∧
    (∃ t, ((Script.block a).run Access.act).run s = (a.course.2, t) ∧
      t.store.depth = s.store.depth ∧ t.store.inTransaction = s.store.inTransaction ∧
      (s.store.depth = 0 → t.store.committed = t.store.working ∧
        (a.course.2 = .ok () → t.store.working = a.course.1.foldl Access.apply s.store.working) ∧
        ∀ f, a.course.2 = .error f → t.store.working = s.store.working) ∧
      (0 < s.store.depth → t.store.committed = s.store.committed ∧
        t.store.working = a.course.1.foldl Access.apply s.store.working)) ∧
    (∀ t ∈ a.states Access.act s, t.store.depth = 0 → t.store.committed = t.store.working) ∧
    (∀ f i, s.store.depth = 0 → a.course.2 = .error f →
      ∃ t, ((Script.seq (.rescue (.block a) fun _ => .done) (.step i)).run Access.act).run s = (.ok (), t) ∧
        t.store.committed = i.apply s.store.working ∧ t.store.working = i.apply s.store.working) := by
  have hup : s.Upholds fun _ => True := { hs with committed := trivial, working := trivial }
  refine ⟨a.committed_of_open (Store.ready_enter hs.live) (Store.open_enter s), ?_, ?_, ?_⟩
  · obtain ⟨es, he⟩ := a.run_block hs
    refine ⟨_, he, by simp, by simp [Store.inTransaction], fun hd => ?_, fun hd => ?_⟩
    · rw [Session.write_of_closed hd]
      refine ⟨rfl, fun hok => ?_, fun f hf => ?_⟩
      · rw [hok]; rfl
      · simp [hf, Session.kept, Store.inTransaction, hd, Session.tell, Session.records]
    · rw [Session.write_of_open hd]
      refine ⟨rfl, ?_⟩
      cases a.course.2 <;> simp [Session.kept, Store.inTransaction, hd, Session.tell, Session.records, Script.effect]
  · intro t ht
    exact ((a.upholds (fun i t ht => i.upholds ht) hup).1 t ht).settled
  · intro f i hd hf
    obtain ⟨es, he⟩ := a.run_block hs
    have hk : s.kept a.course.2 (a.effect s.records) = s.records := by
      simp [hf, Session.kept, Store.inTransaction, hd]
    rw [hk, hs.write_records, hf] at he
    obtain ⟨fs, hi⟩ := i.does (hs.tell es)
    have hrun : ((Script.seq (.rescue (.block a) fun _ => .done) (.step i)).run Access.act).run s =
        (.ok (), ((s.tell es).write (i.apply s.records)).tell fs) := by
      simp only [Script.run] at he ⊢
      simp only [run_bind, run_tryCatch, he, run_pure]
      exact hi
    have hw := Session.write_of_closed (s := s.tell es) hd (i.apply s.records)
    exact ⟨_, hrun, by rw [hw]; rfl, by rw [hw]; rfl⟩

/-- A block that writes, catches the failure of an inner block that writes too, and then fails. -/
theorem blocks_nest_abort :
    let a : Script Access := .seq (.step (.set [1] [1]))
      (.seq (.rescue (.block (.seq (.step (.set [2] [2])) (.raise .abandoned))) fun _ => .done)
        (.seq (.step (.delete [0])) (.raise .abandoned)))
    let s : Session := ⟨.ofRecords (Records.empty.insert [0] [0]), []⟩
    ∃ t, ((Script.block a).run Access.act).run s = (.error .abandoned, t) ∧
      t.store.committed = s.store.committed ∧ t.store.working = s.store.working := by
  intro a s
  obtain ⟨t, ht, -, -, hout, -⟩ := (blocks_nest a s ⟨rfl, fun _ => rfl⟩).2.1
  obtain ⟨hc, -, hf⟩ := hout rfl
  exact ⟨t, ht, hc.trans (hf .abandoned rfl), hf .abandoned rfl⟩

end ExemptZones
