import ExemptZones.Proofs.Atomicity
import ExemptZones.Proofs.Marks

/-
Runs that change the registry: what they leave in the database, and what their exit status tells of it. What is said
when a change was made is said after it was committed, and may not be sayable.

`Shell.Leads`: how the work of a run ends on a disk and which disk it leaves.
`Shell.leads_invocation`: the database keeps what the change commits, whatever is said then.
`exit_status`: the exit status tells whether the change was made, unless what is said then cannot be shown.
-/

namespace ExemptZones

namespace Shell

variable {α β : Type} {d d' d'' : Disk}

/-! ## Work on files -/

/-- From this disk the work ends in `x` and leaves the disk `d'`. What it prints and logs is left open. -/
def Leads (a : Shell (StateM Disk) α) (d : Disk) (x : Except Ending α) (d' : Disk) : Prop :=
  ∀ t, ∃ t', StateT.run (StateT.run (ExceptT.run a) t) d = ((x, t'), d')

namespace Leads

theorem pure (y : α) : Leads (Pure.pure y) d (.ok y) d := fun t => ⟨t, rfl⟩

theorem stop (e : Ending) : Leads (Shell.stop e : Shell (StateM Disk) α) d (.error e) d := fun t => ⟨t, rfl⟩

theorem bind {a : Shell (StateM Disk) α} {k : α → Shell (StateM Disk) β} {y : α} {x : Except Ending β}
    (h : Leads a d (.ok y) d') (hk : Leads (k y) d' x d'') : Leads (a >>= k) d x d'' := fun t => by
  obtain ⟨t', h⟩ := h t
  obtain ⟨t'', hk⟩ := hk t'
  refine ⟨t'', ?_⟩
  rw [ExceptT.run_bind, StateT.run_bind, StateT.run_bind, h]
  exact hk

theorem bind_error {a : Shell (StateM Disk) α} {e : Ending} (h : Leads a d (.error e) d')
    (k : α → Shell (StateM Disk) β) : Leads (a >>= k) d (.error e) d' := fun t => by
  obtain ⟨t', h⟩ := h t
  refine ⟨t', ?_⟩
  rw [ExceptT.run_bind, StateT.run_bind, StateT.run_bind, h]
  rfl

theorem modify (f : Transcript → Transcript) : Leads (modify f) d (.ok ()) d := fun _ => ⟨_, rfl⟩

theorem find (name : Bytes) : Leads (Shell.find name) d (.ok (d.entry name)) d := fun t => ⟨t, rfl⟩

theorem look {path : Text} {e : Entry} (h : d.look path = .ok e) : Leads (Shell.look path) d (.ok e) d := by
  obtain ⟨n, hn, rfl⟩ := Disk.look_eq_ok_iff.1 h
  unfold Shell.look
  rw [hn]
  exact .find n

theorem write {path : Text} {name : Bytes} (h : Path.name path = .ok name) (b : Bytes) :
    Leads (Shell.write path b) d (.ok ()) (d.put name b) := by
  unfold Shell.write
  rw [h]
  exact fun t => ⟨t, rfl⟩

/-- A message is printed, if it can be shown. -/
theorem say (place : Place) (message : Text) :
    Leads (Shell.say place message) d
      (match place.terminal.line? message with
        | .ok _ => .ok ()
        | .error f => .error (.stopped f)) d := by
  unfold Shell.say Terminal.line?
  cases place.terminal.render message with
  | error f => exact .stop _
  | ok text =>
    simp only [Shell.line, Shell.print]
    cases place.terminal.printed? (text ++ "\n") with
    | none => exact .stop _
    | some s => exact .modify _

/-- Of a failure is told or not; either way the run fails. -/
theorem orReport_error (place : Place) (told : Failure → Bool) (f : Failure) :
    ∃ e, Leads (orReport place told false (.error f) : Shell (StateM Disk) α) d (.error e) d ∧ e.exitCode = 1 := by
  simp only [orReport]
  split
  · have hsay := Leads.say (d := d) place (f.toMarkup place.terminal "Error")
    cases hl : place.terminal.line? (f.toMarkup place.terminal "Error") with
    | ok s =>
      rw [hl] at hsay
      exact ⟨.reported f, .bind hsay (.stop _), rfl⟩
    | error g =>
      rw [hl] at hsay
      exact ⟨.stopped g, .bind_error hsay _, rfl⟩
  · exact ⟨.stopped f, .stop _, rfl⟩

end Leads

/-- On this disk the work answers `y`, prints a text, and leaves the disk as it is. What it logs is left open. -/
def Prints (a : Shell (StateM Disk) α) (d : Disk) (y : α) (text : String) : Prop :=
  ∀ t, ∃ log, StateT.run (StateT.run (ExceptT.run a) t) d = ((.ok y, ⟨t.output ++ text, log⟩), d)

namespace Prints

theorem leads {a : Shell (StateM Disk) α} {y : α} {text : String} (h : Prints a d y text) : Leads a d (.ok y) d :=
  fun t => by
    obtain ⟨log, h⟩ := h t
    exact ⟨_, h⟩

theorem pure (y : α) : Prints (Pure.pure y) d y "" := fun t => ⟨t.log, by rw [String.append_empty]; rfl⟩

theorem bind {a : Shell (StateM Disk) α} {k : α → Shell (StateM Disk) β} {y : α} {z : β} {text : String}
    (h : Prints a d y "") (hk : Prints (k y) d z text) : Prints (a >>= k) d z text := fun t => by
  obtain ⟨log, h⟩ := h t
  rw [String.append_empty] at h
  obtain ⟨log', hk⟩ := hk ⟨t.output, log⟩
  refine ⟨log', ?_⟩
  rw [ExceptT.run_bind, StateT.run_bind, StateT.run_bind, h]
  exact hk

theorem find (name : Bytes) : Prints (Shell.find name) d (d.entry name) "" :=
  fun t => ⟨t.log, by rw [String.append_empty]; rfl⟩

theorem look {path : Text} {e : Entry} (h : d.look path = .ok e) : Prints (Shell.look path) d e "" := by
  obtain ⟨n, hn, rfl⟩ := Disk.look_eq_ok_iff.1 h
  unfold Shell.look
  rw [hn]
  exact .find n

/-- A line is printed, if the terminal takes it. -/
theorem line {place : Place} {text s : String} (h : place.terminal.printed? (text ++ "\n" : String) = some s) :
    Prints (Shell.line place text) d () s := by
  unfold Shell.line Shell.print
  rw [Text.plain_append, h]
  exact fun t => ⟨t.log, rfl⟩

theorem logged (es : List Log.Entry) : Prints (modify fun t : Transcript => { t with log := t.log ++ es }) d () "" :=
  fun t => ⟨t.log ++ es, by rw [String.append_empty]; rfl⟩

end Prints

/-! ## The database -/

/-- The database at a path opens with these records. One that is kept nowhere is empty, and one that is not there yet
can be made where a file can stand. -/
def Opens (place : Place) (d : Disk) (path : Text) (r : Records) : Prop :=
  if path = memory then r = .empty
  else
    match d.look (Path.absolute place.directory path) with
    | .ok (.file b) => Store.File.read b = .ok r
    | .ok .absent => d.look (Path.parent (Path.absolute place.directory path)) = .ok .directory ∧ r = .empty
    | .ok .directory | .error _ => False

/-- Afterwards the database at a path has these records. One that is kept nowhere leaves no trace. -/
def Keeps (place : Place) (d : Disk) (path : Text) (r : Records) (d' : Disk) : Prop :=
  if path = memory then d' = d
  else ∃ b, d'.look (Path.absolute place.directory path) = .ok (.file b) ∧ Store.File.read b = .ok r

theorem Keeps.put {place : Place} {path : Text} {name : Bytes} (h : path ≠ memory)
    (hn : Path.name (Path.absolute place.directory path) = .ok name) (r : Records) :
    Keeps place d path r (d'.put name (Store.File.encode r)) := by
  rw [Keeps, if_neg h]
  exact ⟨_, Disk.look_put_self hn, Store.File.read_encode r⟩

theorem leads_openDatabase {place : Place} {path : Text} {r : Records} (h : Opens place d path r) :
    ∃ d', Leads (openDatabase place path) d (.ok (.ok r)) d' ∧ Keeps place d path r d' := by
  unfold Opens at h
  unfold openDatabase
  dsimp only
  by_cases hm : path = memory
  · rw [if_pos hm] at h ⊢
    subst h
    exact ⟨d, .pure _, by rw [Keeps, if_pos hm]⟩
  · rw [if_neg hm] at h ⊢
    cases hn : Path.name (Path.absolute place.directory path) with
    | error f => simp [Disk.look, hn, Except.map] at h
    | ok name =>
      have hl : d.look (Path.absolute place.directory path) = .ok (d.entry name) := Disk.look_eq_ok_iff.2 ⟨_, hn, rfl⟩
      have hkeeps {d₁ : Disk} : Keeps place d path .empty (d₁.put name (Store.File.encode .empty)) := .put hm hn .empty
      rw [hl] at h
      have hfind := Leads.find (d := d) name
      cases he : d.entry name with
      | directory => rw [he] at h; exact h.elim
      | absent =>
        rw [he] at h hfind
        obtain ⟨hp, rfl⟩ := h
        exact ⟨_, .bind hfind (.bind (.look hp) (.bind (.write hn _) (.pure _))), hkeeps⟩
      | file b =>
        rw [he] at h hfind
        replace h : Store.File.read b = .ok r := h
        by_cases hb : b.length ≤ 1
        · have hr : r = .empty := by
            rw [Store.File.read, if_pos hb] at h
            exact (Except.ok.inj h).symm
          subst hr
          refine ⟨d.put _ _, .bind hfind ?_, hkeeps⟩
          dsimp only
          rw [if_pos hb, h]
          exact .bind (.write hn _) (.pure _)
        · refine ⟨d, .bind hfind ?_, by rw [Keeps, if_neg hm]; exact ⟨b, hl.trans (he ▸ rfl), h⟩⟩
          dsimp only
          rw [if_neg hb, h]
          exact .pure _

/-- What is done on the records of a database is written, and nothing is if they are as they were. -/
theorem leads_work {place : Place} {path : Text} {r : Records} (h : Keeps place d path r d') (a : Action α) :
    ∃ d'', Leads (work place path r a) d' (.ok (a.run ⟨.ofRecords r, []⟩).1) d'' ∧
      Keeps place d path (a.run ⟨.ofRecords r, []⟩).2.store.committed d'' := by
  unfold work
  rcases a.run ⟨.ofRecords r, []⟩ with ⟨x, s⟩
  dsimp only
  by_cases hw : (path ≠ memory && s.store.committed ≠ r) = true
  · have hm : path ≠ memory := by simp only [Bool.and_eq_true, decide_eq_true_eq] at hw; exact hw.1
    rw [Keeps, if_neg hm] at h
    obtain ⟨b, hl, -⟩ := h
    obtain ⟨name, hn, -⟩ := Disk.look_eq_ok_iff.1 hl
    rw [if_pos hw]
    exact ⟨_, .bind (.modify _) (.bind (.write hn _) (.pure x)), .put hm hn _⟩
  · rw [if_neg hw]
    refine ⟨d', .bind (.modify _) (.pure x), ?_⟩
    unfold Keeps at h ⊢
    by_cases hm : path = memory
    · rwa [if_pos hm] at h ⊢
    · have hr : s.store.committed = r := by simpa [hm] using hw
      rwa [hr]

theorem leads_workOn {place : Place} {path : Text} {r : Records} (h : Opens place d path r) (a : Action α) :
    ∃ d', Leads (workOn place path a) d (.ok (a.run ⟨.ofRecords r, []⟩).1) d' ∧
      Keeps place d path (a.run ⟨.ofRecords r, []⟩).2.store.committed d' := by
  obtain ⟨d₁, hopen, h₁⟩ := leads_openDatabase h
  obtain ⟨d₂, hwork, h₂⟩ := leads_work h₁ a
  exact ⟨d₂, .bind hopen hwork, h₂⟩

/-! ## What a run is set up with -/

/-- What a file that was named on the command line reads as. -/
def loaded (place : Place) (d : Disk) (path : Text) (read : Text → Bytes → Except Failure α) : Except Failure α := do
  let e ← d.look (Path.absolute place.directory path)
  e.content (Path.absolute place.directory path) >>= read (Path.fileName (Path.absolute place.directory path))

/-- The absolute path of what was named on the command line, if anything was. It need not be there. -/
def located (place : Place) (d : Disk) : Option Text → Except Failure (Option Text)
  | some path => (d.look (Path.absolute place.directory path)).map fun _ => some (Path.absolute place.directory path)
  | none => .ok none

theorem Prints.located {place : Place} {given found : Option Text} (h : located place d given = .ok found) :
    Prints (Invocation.ifGiven (resolve place) given) d found "" := by
  cases given with
  | none => exact Except.ok.inj h ▸ .pure none
  | some path =>
    simp only [Shell.located] at h
    cases hl : d.look (Path.absolute place.directory path) with
    | error f => rw [hl] at h; cases h
    | ok e =>
      rw [hl] at h
      exact Except.ok.inj h ▸ .bind (.bind (.look hl) (.pure _)) (.pure _)

section loaded

variable {place : Place} {path : Text} {read : Text → Bytes → Except Failure α} {y : α}

theorem exists_of_loaded (h : loaded place d path read = .ok y) :
    ∃ e, d.look (Path.absolute place.directory path) = .ok e ∧ e.isThere = true ∧
      (e.content (Path.absolute place.directory path) >>= read (Path.fileName (Path.absolute place.directory path))) =
        .ok y := by
  unfold loaded at h
  cases hl : d.look (Path.absolute place.directory path) with
  | error f => rw [hl] at h; cases h
  | ok e =>
    rw [hl] at h
    refine ⟨e, rfl, ?_, h⟩
    cases e with
    | absent => cases h
    | file | directory => rfl

theorem Prints.present (h : loaded place d path read = .ok y) :
    Prints (Shell.present place path) d (Path.absolute place.directory path) "" := by
  obtain ⟨e, hl, ht, -⟩ := exists_of_loaded h
  refine .bind (.look hl) ?_
  rw [ht]
  exact .pure _

theorem Prints.loaded (h : loaded place d path read = .ok y) :
    Prints (Shell.readFile (Path.absolute place.directory path) read) d (.ok y) "" := by
  obtain ⟨e, hl, -, hy⟩ := exists_of_loaded h
  exact hy ▸ .bind (.look hl) (.pure _)

end loaded

end Shell

namespace Invocation

open Shell

/-- The configuration that an invocation works with. -/
def settled (i : Invocation) (place : Place) (d : Disk) : Except Failure Config := do
  let database ← located place d i.database
  let c ← match i.configFile place with
    | some path => loaded place d path Loading.config
    | none => .ok {}
  return withDatabase database c

end Invocation

/-- A change of the registry that a command comes to, the zone that it is about, and what is said when it is made. -/
structure Order where
  change : Registry.Change
  zone : Text
  said : Text

/-- The order that a command gives with a configuration. -/
inductive Command.Gives (place : Place) (c : Config) (d : Disk) : Command → Order → Prop where
  | change (k : MessageKind) (authority : Option Text) (zone : Text) (flags : Flags) (addresses : List Text) :
    Gives place c d (.change k authority zone flags addresses)
      ⟨.message (k.message (authority.getD c.authority) zone flags addresses), zone, Shell.changed k zone addresses⟩
  | migrate (file : String) (zone : Text) (addresses : List Text)
    (h : Shell.loaded place d file (fun _ => Loading.addresses) = .ok addresses) :
    Gives place c d (.migrate file zone)
      ⟨.migrate addresses zone, zone,
        "Migrated " ++ toString addresses.length ++ " address(es) into " ++ Shell.strong zone⟩

/-! ## Runs -/

/-- How a run ends whose work ends so. -/
def Ending.ofWork : Except Ending Unit → Ending
  | .ok () => .success
  | .error e => e

/-- A migration answers how many addresses it was given. -/
theorem Registry.eq_length_of_migrate {cfg : Settings} {addresses : List Text} {zone : Text} {s t : Session}
    {n : Nat} (h : (migrate cfg addresses zone).run s = (.ok n, t)) : n = addresses.length := by
  unfold migrate at h
  rw [Action.run_bind] at h
  split at h
  · exact (Except.ok.inj (congrArg Prod.fst h)).symm
  · exact absurd (congrArg Prod.fst h) nofun

namespace Order

/-- How the change ends on the records of a database, and what it commits. -/
def outcome (o : Order) (c : Config) (r : Records) : Except Failure Unit × Session :=
  (o.change.act c.settings).run ⟨.ofRecords r, []⟩

/-- The terminal can show what is said. -/
def Sayable (o : Order) (t : Terminal) : Prop :=
  t.Shows (Shell.doneMessage o.said)

end Order

namespace Shell

variable {d : Disk} {place : Place} {c : Config} {r : Records}

/-- The end of a run in which the change of an order was made or failed. -/
def Tells (t : Terminal) (o : Order) (x : Except Failure Unit) (y : Except Ending Unit) : Prop :=
  (y = .ok () ↔ x = .ok () ∧ o.Sayable t) ∧ ∀ e, y = .error e → e.exitCode = 1

theorem leads_done (place : Place) (o : Order) :
    ∃ y, Leads (done place o.said) d y d ∧ Tells place.terminal o (.ok ()) y := by
  refine ⟨_, .say _ _, ?_⟩
  unfold Tells Order.Sayable Terminal.Shows
  cases h : place.terminal.line? (doneMessage o.said) with
  | ok s => simp
  | error f => simp [Ending.exitCode]

theorem Tells.error (t : Terminal) (o : Order) (f : Failure) {e : Ending} (h : e.exitCode = 1) :
    Tells t o (.error f) (.error e) :=
  ⟨⟨nofun, nofun⟩, fun _ he => Except.error.inj he ▸ h⟩

/-- **The run of a command that changes the registry.** What the change commits is kept, whatever is said then. -/
theorem leads_perform {k : Command} {o : Order} (ho : k.Gives place c d o) (hr : Opens place d c.dbPath r) (json : Bool)
    {file : Text} (hf : ∀ p, k.file? = some p → file = Path.absolute place.directory p) (out : Option Text) :
    ∃ y d', Leads (k.perform place c json file out) d y d' ∧ Tells place.terminal o (o.outcome c r).1 y ∧
      Keeps place d c.dbPath (o.outcome c r).2.store.committed d' := by
  cases ho with
  | change k authority zone flags addresses =>
    let m := k.message (authority.getD c.authority) zone flags addresses
    let o : Order := ⟨.message m, zone, changed k zone addresses⟩
    obtain ⟨d', hwork, hkeeps⟩ := leads_workOn hr (Registry.handle c.settings m)
    rcases h : (Registry.handle c.settings m).run ⟨.ofRecords r, []⟩ with ⟨x, t⟩
    have hout : o.outcome c r = (x, t) := h
    rw [h] at hwork hkeeps
    rw [hout]
    cases x with
    | error f =>
      obtain ⟨e, hreport, he⟩ := Leads.orReport_error (α := Unit) (d := d') place Failure.isOfRegistry f
      exact ⟨.error e, d', .bind_error (.bind hwork hreport) _, .error _ o f he, hkeeps⟩
    | ok _ =>
      obtain ⟨y, hdone, hy⟩ := leads_done (d := d') place o
      exact ⟨y, d', .bind (.bind hwork (.pure ())) hdone, hy, hkeeps⟩
  | migrate path zone addresses h =>
    obtain rfl := hf path rfl
    let o : Order := ⟨.migrate addresses zone, zone,
      "Migrated " ++ toString addresses.length ++ " address(es) into " ++ strong zone⟩
    obtain ⟨d', hwork, hkeeps⟩ := leads_workOn hr (Registry.migrate c.settings addresses zone)
    rcases h' : (Registry.migrate c.settings addresses zone).run ⟨.ofRecords r, []⟩ with ⟨x, t⟩
    have hout : o.outcome c r = (x.map fun _ => (), t) := by
      simp only [o, Order.outcome, Registry.Change.act, Action.run_bind, h']
      cases x <;> rfl
    rw [h'] at hwork hkeeps
    rw [hout]
    cases x with
    | error f =>
      obtain ⟨e, hreport, he⟩ := Leads.orReport_error (α := Nat) (d := d') place Failure.isOfList f
      refine ⟨.error e, d', ?_, .error _ o f he, hkeeps⟩
      exact .bind (Prints.loaded h).leads (.bind (.pure _) (.bind hwork (.bind_error hreport _)))
    | ok n =>
      obtain rfl := Registry.eq_length_of_migrate h'
      obtain ⟨y, hdone, hy⟩ := leads_done (d := d') place o
      exact ⟨y, d', .bind (Prints.loaded h).leads (.bind (.pure _) (.bind hwork (.bind (.pure _) hdone))), hy, hkeeps⟩

/-- What an invocation looks up before it works. -/
theorem prints_configuration {i : Invocation} (hc : i.settled place d = .ok c) :
    ∃ file database c₀, Prints (Invocation.ifGiven (present place) (i.configFile place)) d file "" ∧
      Prints (Invocation.ifGiven (resolve place) i.database) d database "" ∧
      Prints (configuration place file) d c₀ "" ∧ withDatabase database c₀ = c := by
  unfold Invocation.settled at hc
  cases hd : located place d i.database with
  | error f => rw [hd] at hc; cases hc
  | ok database =>
    rw [hd] at hc
    cases hp : i.configFile place with
    | none =>
      rw [hp] at hc
      exact ⟨none, database, _, .pure none, .located hd, .pure _, Except.ok.inj hc⟩
    | some path =>
      rw [hp] at hc
      cases hl : loaded place d path Loading.config with
      | error f =>
        simp only [hl] at hc
        cases hc
      | ok c₀ =>
        simp only [hl] at hc
        exact ⟨some _, database, c₀, .bind (.present hl) (.pure _), .located hd, .bind (.loaded hl) (.pure c₀),
          Except.ok.inj hc⟩

theorem leads_file {k : Command} {o : Order} (ho : k.Gives place c d o) :
    ∃ file, Leads (Invocation.ifGiven (present place) k.file?) d (.ok file) d ∧
      ∀ p, k.file? = some p → file.getD "" = Path.absolute place.directory p := by
  cases ho with
  | change => exact ⟨none, .pure none, nofun⟩
  | migrate path zone addresses h =>
    exact ⟨some _, (Prints.bind (.present h) (.pure (some _))).leads, fun p hp => by cases hp; rfl⟩

/-- A command that changes the registry writes no other file. -/
theorem out?_of_gives {k : Command} {o : Order} (ho : k.Gives place c d o) : k.out? = none := by
  cases ho <;> rfl

theorem leads_invocation {i : Invocation} {o : Order} (hc : i.settled place d = .ok c)
    (ho : i.command.Gives place c d o) (hr : Opens place d c.dbPath r) :
    ∃ y d', Leads (i.perform place) d y d' ∧ Tells place.terminal o (o.outcome c r).1 y ∧
      Keeps place d c.dbPath (o.outcome c r).2.store.committed d' := by
  obtain ⟨config, database, c₀, hgiven, hdatabase, hconfig, rfl⟩ := prints_configuration hc
  obtain ⟨file, hfile, hf⟩ := leads_file ho
  obtain ⟨y, d', hy, htells, hkeeps⟩ := leads_perform ho hr i.json hf none
  refine ⟨y, d', .bind hgiven.leads (.bind hfile (.bind hdatabase.leads (.bind (y := none) ?_ (.bind hconfig.leads hy)))),
    htells, hkeeps⟩
  rw [out?_of_gives ho]
  exact .pure none

/-- A run is the work of its request. -/
theorem run_of_perform {words : List Text} {request : Request} {y : Except Ending Unit} {t : Transcript} {d' : Disk}
    (hw : Request.read words = .ok request)
    (h : StateT.run (StateT.run (ExceptT.run (request.perform place : Shell (StateM Disk) Unit)) {}) d =
      ((y, t), d')) :
    StateT.run (ExemptZones.run place words : StateM Disk Run) d =
      (⟨.ofWork y, t.output, t.log.filter request.logged⟩, d') := by
  rw [ExemptZones.run, hw]
  dsimp only
  rw [StateT.run_bind, h]
  cases y <;> rfl

/-- A run leaves the disk that its work leaves, and ends as that does. -/
theorem run_of_leads {words : List Text} {request : Request} {y : Except Ending Unit} {d' : Disk}
    (hw : Request.read words = .ok request) (h : Leads (request.perform place) d y d') :
    ∃ out, StateT.run (ExemptZones.run place words : StateM Disk Run) d = (out, d') ∧ out.ending = .ofWork y := by
  obtain ⟨t, ht⟩ := h {}
  exact ⟨_, run_of_perform hw ht, rfl⟩

/-- The output of a run that goes well. -/
theorem run_of_prints {words : List Text} {request : Request} {text : String}
    (hw : Request.read words = .ok request) (h : Prints (request.perform place) d () text) :
    ∃ log, StateT.run (ExemptZones.run place words : StateM Disk Run) d = (⟨.success, text, log⟩, d) := by
  obtain ⟨log, h⟩ := h {}
  rw [show ({} : Transcript).output ++ text = text from String.empty_append] at h
  exact ⟨_, run_of_perform hw h⟩

/-- **The run of an order.** The database keeps what the change commits, and the exit status is zero if and only if the
change is made and what is said then can be shown. -/
theorem run_order {words : List Text} {i : Invocation} {o : Order} (hw : Request.read words = .ok (.run i))
    (hc : i.settled place d = .ok c) (ho : i.command.Gives place c d o) (hr : Opens place d c.dbPath r) :
    ∃ out d', StateT.run (ExemptZones.run place words : StateM Disk Run) d = (out, d') ∧
      Keeps place d c.dbPath (o.outcome c r).2.store.committed d' ∧
      (out.ending.exitCode = 0 ↔ (o.outcome c r).1 = .ok () ∧ o.Sayable place.terminal) ∧ out.ending.exitCode ≤ 1 := by
  obtain ⟨y, d', hy, ⟨hok, herror⟩, hkeeps⟩ := leads_invocation hc ho hr
  have hy : Leads (Request.perform place (.run i)) d y d' := hy
  obtain ⟨out, hrun, hend⟩ := run_of_leads hw hy
  have hcode : (out.ending.exitCode = 0 ↔ y = .ok ()) ∧ out.ending.exitCode ≤ 1 := by
    cases y with
    | ok _ => simp [hend, Ending.ofWork, Ending.exitCode]
    | error e => simp [hend, Ending.ofWork, herror e rfl]
  exact ⟨out, d', hrun, hkeeps, hcode.1.trans hok, hcode.2⟩

end Shell

namespace Order

/-- A change that fails commits nothing. -/
theorem committed_of_error (o : Order) {c : Config} {r : Records} {f : Failure}
    (h : (o.outcome c r).1 = .error f) : (o.outcome c r).2.store.committed = r := by
  obtain ⟨x, s', -, -, hf, hrun⟩ :=
    Registry.Call.step ⟨c.settings, o.change⟩ (s := .ofRecords r) ⟨rfl, rfl, rfl⟩ fun he => nomatch he.2
  obtain ⟨log, h'⟩ := hrun []
  replace h' : o.outcome c r = (x, ⟨s', log ++ []⟩) := h'
  rw [h'] at h ⊢
  rw [hf f h]
  rfl

theorem sayable (o : Order) {k : Command} {place : Place} {c : Config} {d : Disk} (ho : k.Gives place c d o)
    {zone : String} (hz : o.zone = zone) (h : '[' ∉ zone.toList) : o.Sayable .unicode := by
  cases ho with
  | change k authority zone flags addresses =>
    obtain rfl := hz
    exact Shell.shows_changed k addresses h
  | migrate path zone addresses =>
    obtain rfl := hz
    exact Shell.shows_counted _ (by decide) (by decide) h

end Order

/-- **What a run that changes the registry leaves, and what its exit status tells of it.** The run of a message or a
migration ends, and its database keeps what the change commits: all of it if it is made, and nothing if it fails. The
exit status is zero if and only if the change is made and the terminal can show what is said then, and one
otherwise. -/
theorem exit_status (place : Place) (words : List Text) (d : Disk) (i : Invocation) (c : Config) (o : Order)
    (r : Records) (hw : Request.read words = .ok (.run i)) (hc : i.settled place d = .ok c)
    (ho : i.command.Gives place c d o) (hr : Shell.Opens place d c.dbPath r) :
    ∃ out d' x t, StateT.run (run place words : StateM Disk Run) d = (out, d') ∧
      (o.change.act c.settings).run ⟨.ofRecords r, []⟩ = (x, t) ∧
      Shell.Keeps place d c.dbPath t.store.committed d' ∧
      (∀ f, x = .error f → t.store.committed = r) ∧
      (out.ending.exitCode = 0 ↔ x = .ok () ∧ place.terminal.Shows (Shell.doneMessage o.said)) ∧
      out.ending.exitCode ≤ 1 := by
  obtain ⟨out, d', hrun, hkeeps, hcode, hle⟩ := Shell.run_order hw hc ho hr
  exact ⟨out, d', _, _, hrun, rfl, hkeeps, fun _ => o.committed_of_error, hcode, hle⟩

/-- A zone that is added to a database which is not there yet. -/
theorem exit_status_new_database :
    let place : Place := { directory := "/w" }
    let d : Disk := { directories := [Utf8.encode "/w"] }
    ∃ out d', StateT.run (run place ["tx", "add-zone", "a"] : StateM Disk Run) d = (out, d') ∧
      out.ending.exitCode = 0 := by
  intro place d
  let i : Invocation := ⟨.change .addZone none "a" {} [], none, none, false, false⟩
  let m : Message := .addZone ⟨{}, "", "a", []⟩
  have hw : Request.read ["tx", "add-zone", "a"] = .ok (.run i) := by decide +kernel
  have habsent : d.look (Path.absolute "/w" "taxexempt.db") = .ok .absent := by decide +kernel
  have hparent : d.look (Path.parent (Path.absolute "/w" "taxexempt.db")) = .ok .directory := by decide +kernel
  have hr : Shell.Opens place d "taxexempt.db" .empty := by
    rw [Shell.Opens, if_neg (by decide), habsent]
    exact ⟨hparent, rfl⟩
  have hm : ((Registry.handle {} m).run ⟨.ofRecords .empty, []⟩).1 = .ok () := by decide +kernel
  obtain ⟨out, d', x, t, hrun, hx, -, -, hcode, -⟩ :=
    exit_status place _ d i {} _ .empty hw rfl (.change .addZone none "a" {} []) hr
  refine ⟨out, d', hrun, hcode.2 ⟨(congrArg Prod.fst hx).symm.trans hm, ?_⟩⟩
  exact Shell.shows_changed .addZone [] (by decide)

/-- A zone whose name is a closing mark: it is added and kept, and the run fails all the same. -/
theorem exit_status_stray_mark :
    let after := StateT.run (run { directory := "/w" } ["tx", "add-zone", "[/]"] : StateM Disk Run)
      { directories := [Utf8.encode "/w"] }
    let handled := (Registry.handle {} (.addZone ⟨{}, "", "[/]", []⟩)).run ⟨.ofRecords .empty, []⟩
    handled.1 = .ok () ∧ handled.2.store.committed ≠ .empty ∧
      after.2.look "/w/taxexempt.db" = .ok (.file (Store.File.encode handled.2.store.committed)) ∧
      after.1.ending.exitCode = 1 := by
  decide +kernel

/-- Where every character is taken and the zone's name has no opening bracket, the exit status tells whether the change
was made. -/
theorem exit_code_of_unmarked {place : Place} {words : List Text} {d : Disk} {i : Invocation} {c : Config}
    {zone : String} {o : Order} {r : Records} (ht : place.terminal = .unicode)
    (hw : Request.read words = .ok (.run i)) (hc : i.settled place d = .ok c) (ho : i.command.Gives place c d o)
    (hr : Shell.Opens place d c.dbPath r) (hz : o.zone = zone) (hn : '[' ∉ zone.toList) :
    ∃ out d', StateT.run (run place words : StateM Disk Run) d = (out, d') ∧
      (out.ending.exitCode = 0 ↔ (o.outcome c r).1 = .ok ()) := by
  obtain ⟨out, d', hrun, -, hcode, -⟩ := Shell.run_order hw hc ho hr
  rw [ht, and_iff_left (o.sayable ho hz hn)] at hcode
  exact ⟨out, d', hrun, hcode⟩

end ExemptZones
