import ExemptZones.Proofs.ExitStatus
import ExemptZones.Proofs.KeyOrder
import ExemptZones.Proofs.Reading
import ExemptZones.Proofs.Soundness

/-
What the databases on a disk hold that only the program writes to. Its runs may differ in everything: the place, the
configuration, and with it the readable part that addresses have. So less is known than of a registry with fixed
settings, but each record is that of a zone or of a membership, and no key is empty.

`Shell.Guards`: work that keeps a property of the disk, however it ends.
`Disk.Reachable`: what runs of the program, and work on files by hand between them, can lead to.
`Disk.Reachable.legible`: the databases on such a disk hold records of zones and of memberships only.
-/

namespace ExemptZones

/-! ## The records -/

namespace Registry

/-- The record of a zone with a name, or of the membership of an address. -/
inductive LegibleRecord : Record → Prop where
  | zone {z : Zone} (named : z.name ≠ "") : LegibleRecord (zoneKey z.name, z.encode)
  | member {address zone : String} (named : address ≠ "") : LegibleRecord (memberKey address, Utf8.encode zone)

def Legible (r : Records) : Prop :=
  ∀ e ∈ r.entries, LegibleRecord e

section Legible

variable {r r' : Records} {k v : Bytes}

theorem Legible.empty : Legible .empty := fun _ h => absurd h List.not_mem_nil

theorem Legible.insert (h : Legible r) (hk : LegibleRecord (k, v)) : Legible (r.insert k v) := by
  intro e he
  rcases Records.mem_insertInto he with rfl | he
  · exact hk
  · exact h e he

theorem Legible.keep (h : Legible r) (p : Record → Bool) : Legible (r.keep p) :=
  fun e he => h e (List.mem_of_mem_filter he)

/-- **An edit keeps the records legible**, whatever the readable part of its addresses is. -/
theorem Legible.makes {hrp : String} {e : Edit} (hm : e.Makes hrp r r') (h : Legible r) : Legible r' := by
  have hne : ∀ {address : String} {raw : Bytes}, Address.validate address hrp = .ok raw → address ≠ "" := by
    rintro _ raw hv rfl
    exact absurd (isEmpty_of_validate hv) (by decide)
  cases hm with
  | addZone named => exact h.insert (.zone named)
  | modifyZone named _ => exact h.insert (.zone named)
  | removeZone _ => exact h.keep _
  | addAddress _ valid _ => exact h.insert (.member (hne valid))
  | keepAddress _ _ _ => exact h
  | removeAddress _ _ _ => exact h.keep _

/-- What a change commits is legible if what it started from was. -/
theorem Legible.committed (cfg : Settings) (c : Change) (h : Legible r) :
    Legible ((c.act cfg).run ⟨.ofRecords r, []⟩).2.store.committed := by
  have hs : Session.Upholds (P := Legible) ⟨.ofRecords r, []⟩ :=
    { live := rfl, settled := fun _ => rfl, committed := h, working := h }
  rw [Session.upholds_iff] at hs
  exact (Change.upholdsFrom (fun _ _ _ _ hm => Legible.makes hm) hs).1.committed rfl

end Legible

end Registry

open Registry (Legible)

/-! ## Files -/

/-- The byte in the mark of a database occurs in no text. -/
theorem Utf8.not_mem_encode (s : String) : 0xff ∉ encode s := by
  have hne : ∀ k : Nat, k < 0xff → (0xff = UInt8.ofNat k) = False := fun k hk => eq_false fun h => by
    have hk' : (UInt8.ofNat k).toNat = k := UInt8.toNat_ofNat_of_lt' (Nat.lt_trans hk (by decide))
    rw [← h] at hk'
    exact absurd hk'.symm (Nat.ne_of_lt hk)
  rw [encode_eq, List.mem_flatMap]
  rintro ⟨c, -, hc⟩
  simp only [String.utf8EncodeChar] at hc
  -- One case for each length that the encoding of a character may have.
  repeat' split at hc
  all_goals simp (disch := omega) only [List.mem_cons, List.not_mem_nil, or_false, hne] at hc

/-- A text is no database that has records. -/
theorem Store.File.eq_empty_of_read_text {s : String} {r : Records} (h : read (Utf8.encode s) = .ok r) :
    r = .empty := by
  unfold read at h
  split at h
  · exact (Except.ok.inj h).symm
  · split at h
    · rename_i hd
      unfold decode? at hd
      split at hd
      · cases hd
      · rename_i ht
        have hm : 0xff ∈ (Utf8.encode s).take mark.length := by
          rw [Decidable.not_not.1 ht]
          decide +kernel
        exact absurd (List.mem_of_mem_take hm) (Utf8.not_mem_encode s)
    · cases h

namespace Disk

/-- What is in a file after another was written. -/
theorem entry_put_eq_file {d : Disk} {name other b c : Bytes} (h : (d.put name b).entry other = .file c) :
    (other = name ∧ c = b) ∨ d.entry other = .file c := by
  by_cases ho : other = name
  · subst ho
    rw [entry_put_self] at h
    exact .inl ⟨rfl, (Entry.file.inj h).symm⟩
  · exact .inr ((entry_put_other ho).1 h)

/-- Each database that is in a file holds legible records. -/
def Legible (d : Disk) : Prop :=
  ∀ name b r, d.entry name = .file b → Store.File.read b = .ok r → Registry.Legible r

theorem Legible.put {d : Disk} (h : d.Legible) (name : Bytes) {b : Bytes}
    (hb : ∀ r, Store.File.read b = .ok r → Registry.Legible r) : (d.put name b).Legible := by
  intro other c r hl hr
  obtain ⟨-, rfl⟩ | hl := entry_put_eq_file hl
  · exact hb r hr
  · exact h other c r hl hr

end Disk

/-! ## Work that keeps a property of the disk -/

namespace Shell

variable {α β : Type} {I : Disk → Prop}

/-- On a disk with the property `I` the work leaves one with it, however it ends. What it answers has the
property `P`. -/
def Guards (I : Disk → Prop) (a : Shell (StateM Disk) α) (P : α → Prop) : Prop :=
  ∀ d t, I d →
    I (StateT.run (StateT.run (ExceptT.run a) t) d).2 ∧
      ∀ y, (StateT.run (StateT.run (ExceptT.run a) t) d).1.1 = .ok y → P y

namespace Guards

variable {P Q : α → Prop} {a : Shell (StateM Disk) α}

theorem pure {y : α} (hy : P y) : Guards I (Pure.pure y) P :=
  fun _ _ hd => ⟨hd, fun _ h => Except.ok.inj h ▸ hy⟩

theorem stop (e : Ending) : Guards I (Shell.stop e) P := fun _ _ hd => ⟨hd, nofun⟩

/-- What would come after the end does not matter. -/
theorem stop_then (e : Ending) (k : β → Shell (StateM Disk) α) : Guards I (Shell.stop e >>= k) P :=
  fun _ _ hd => ⟨hd, nofun⟩

theorem bind {k : α → Shell (StateM Disk) β} {R : β → Prop} (ha : Guards I a P)
    (hk : ∀ y, P y → Guards I (k y) R) : Guards I (a >>= k) R := by
  intro d t hd
  obtain ⟨hd', hy⟩ := ha d t hd
  rw [ExceptT.run_bind, StateT.run_bind, StateT.run_bind]
  rcases h : StateT.run (StateT.run (ExceptT.run a) t) d with ⟨⟨e | y, t'⟩, d'⟩ <;> rw [h] at hd' hy
  · exact ⟨hd', nofun⟩
  · exact hk y (hy y rfl) d' t' hd'

theorem modify (f : Transcript → Transcript) : Guards I (modify f) fun _ => True :=
  fun _ _ hd => ⟨hd, fun _ _ => trivial⟩

theorem find (name : Bytes) : Guards I (Shell.find name) fun e => ∃ d, I d ∧ d.entry name = e :=
  fun d _ hd => ⟨hd, fun _ h => ⟨d, hd, Except.ok.inj h⟩⟩

theorem look (path : Text) : Guards I (Shell.look path) fun _ => True := by
  unfold Shell.look
  split
  · exact fun _ _ hd => ⟨hd, fun _ _ => trivial⟩
  · exact .stop _

theorem write (path : Text) {b : Bytes} (h : ∀ d name, I d → I (d.put name b)) :
    Guards I (Shell.write path b) fun _ => True := by
  unfold Shell.write
  split
  · exact fun d _ hd => ⟨h d _ hd, fun _ _ => trivial⟩
  · exact .stop _

theorem forM {f : β → Shell (StateM Disk) Unit} (xs : List β) (h : ∀ x, Guards I (f x) fun _ => True) :
    Guards I (xs.forM f) fun _ => True := by
  induction xs with
  | nil => exact .pure trivial
  | cons x xs ih => exact (h x).bind fun _ _ => ih

theorem line (place : Place) (text : Text) : Guards I (Shell.line place text) fun _ => True := by
  unfold Shell.line Shell.print
  split
  · exact .modify _
  · exact .stop _

theorem say (place : Place) (message : Text) : Guards I (Shell.say place message) fun _ => True := by
  unfold Shell.say
  split
  · exact .line _ _
  · exact .stop _

theorem report (place : Place) (json : Bool) (f : Failure) : Guards I (Shell.report place json f) P := by
  unfold Shell.report
  dsimp only
  split
  · exact (Guards.line _ _).bind fun _ _ => .stop _
  · exact (Guards.say _ _).bind fun _ _ => .stop _

theorem orReport {place : Place} {told : Failure → Bool} {json : Bool} {x : Except Failure α}
    (hx : ∀ y, x = .ok y → P y) : Guards I (Shell.orReport place told json x) P := by
  cases x with
  | ok y => exact .pure (hx y rfl)
  | error f =>
    simp only [Shell.orReport]
    split
    · exact .report place json f
    · exact .stop _

theorem readFile (path : Text) (read : Text → Bytes → Except Failure α) :
    Guards I (Shell.readFile path read) fun _ => True :=
  (Guards.look path).bind fun _ _ => .pure trivial

theorem resolve (place : Place) (path : Text) : Guards I (Shell.resolve place path) fun _ => True :=
  (Guards.look _).bind fun _ _ => .pure trivial

theorem present (place : Place) (path : Text) : Guards I (Shell.present place path) fun _ => True := by
  refine (Guards.look _).bind fun e _ => ?_
  dsimp only
  split
  · exact .stop_then _ _
  · exact .pure trivial

theorem save (path : Text) {b : Bytes} (h : ∀ d name, I d → I (d.put name b)) :
    Guards I (Shell.save path b) fun _ => True := by
  refine (Guards.look _).bind fun e _ => ?_
  dsimp only
  split
  · exact .stop_then _ _
  · refine (Guards.look _).bind fun e _ => ?_
    split
    · exact .stop_then _ _
    · exact .write path h

end Guards

/-! ## Runs -/

section Legible

variable {place : Place} {c : Config} {path : Text} {r : Records}

theorem guards_openDatabase (place : Place) (path : Text) :
    Guards Disk.Legible (openDatabase place path) fun x => ∀ r, x = .ok r → Legible r := by
  have hempty : ∀ d name, Disk.Legible d → (d.put name (Store.File.encode .empty)).Legible := fun d name hd =>
    hd.put name fun r hr => by
      rw [Store.File.read_encode] at hr
      exact Except.ok.inj hr ▸ .empty
  unfold openDatabase
  dsimp only
  split
  · exact .pure fun r hr => Except.ok.inj hr ▸ .empty
  · split
    · exact .pure nofun
    · refine (Guards.find _).bind fun e he => ?_
      cases e with
      | directory => exact .pure nofun
      | absent =>
        refine (Guards.look _).bind fun e _ => ?_
        split
        · exact .pure nofun
        · exact (Guards.write _ hempty).bind fun _ _ => .pure fun r hr => Except.ok.inj hr ▸ .empty
      | file b =>
        obtain ⟨d, hd, hl⟩ := he
        have hread : ∀ r, (Store.File.read b).mapError Failure.registry = .ok r → Legible r := fun r hr => by
          cases h : Store.File.read b with
          | error f => rw [h] at hr; cases hr
          | ok r' =>
            rw [h] at hr
            exact Except.ok.inj hr ▸ hd _ b r' hl h
        dsimp only
        split
        · exact (Guards.write _ hempty).bind fun _ _ => .pure hread
        · exact .pure hread

theorem guards_work {a : Action α} (h : Legible (a.run ⟨.ofRecords r, []⟩).2.store.committed) :
    Guards Disk.Legible (work place path r a) fun _ => True := by
  unfold work
  rcases hrun : a.run ⟨.ofRecords r, []⟩ with ⟨x, s⟩
  rw [hrun] at h
  refine (Guards.modify _).bind fun _ _ => ?_
  dsimp only
  split
  · refine (Guards.write _ fun d name hd => hd.put _ fun r' hr' => ?_).bind fun _ _ => .pure trivial
    rw [Store.File.read_encode] at hr'
    exact Except.ok.inj hr' ▸ h
  · exact .pure trivial

theorem guards_workOn {a : Action α} (h : ∀ r, Legible r → Legible (a.run ⟨.ofRecords r, []⟩).2.store.committed) :
    Guards Disk.Legible (workOn place path a) fun _ => True := by
  refine (guards_openDatabase place path).bind fun x hx => ?_
  cases x with
  | error f => exact .pure trivial
  | ok r => exact guards_work (h r (hx r rfl))

/-- Work that only reads commits nothing new. -/
theorem guards_reading {a : Action α} (ha : Reads a) (h : Legible r) :
    Guards Disk.Legible (work place path r a) fun _ => True :=
  guards_work ((ha ⟨.ofRecords r, []⟩).1 ▸ h)

theorem guards_isThere {I : Disk → Prop} (place : Place) (path : Text) :
    Guards I (isThere place path) fun _ => True := by
  unfold isThere
  split
  · exact (Guards.find _).bind fun _ _ => .pure trivial
  · exact .pure trivial

theorem guards_existing (place : Place) (c : Config) : Guards Disk.Legible (existing place c) Legible := by
  have hrequire : Guards Disk.Legible (requireDatabase place c) fun _ => True := by
    refine (guards_isThere place c.dbPath).bind fun there _ => ?_
    split
    · exact (Guards.say _ _).bind fun _ _ => .stop _
    · exact .pure trivial
  exact hrequire.bind fun _ _ => (guards_openDatabase place c.dbPath).bind fun x hx => .orReport hx

end Legible

variable {I : Disk → Prop}

theorem guards_configuration (place : Place) (file : Option Text) :
    Guards I (configuration place file) fun _ => True := by
  cases file with
  | none => exact .pure trivial
  | some path =>
    refine (Guards.readFile _ _).bind fun x _ => ?_
    cases x with
    | ok c => exact .pure trivial
    | error f =>
      dsimp only
      split
      · exact .stop_then _ _
      · exact (Guards.say _ _).bind fun _ _ => .stop _

theorem guards_showZones (place : Place) (zs : List ZoneDraft) : Guards I (showZones place zs) fun _ => True := by
  unfold showZones
  split
  · exact .forM _ (.line place)
  · exact .stop _

theorem guards_showFooter (place : Place) (p : PageResponse) : Guards I (showFooter place p) fun _ => True := by
  have hsay : ∀ text, Guards I (say place text) fun _ => True := .say place
  unfold showFooter
  dsimp only
  split
  · refine (hsay _).bind fun _ _ => ?_
    split
    · exact hsay _
    · exact .pure trivial
  · split
    · exact hsay _
    · exact .pure trivial

theorem guards_showAnswer (place : Place) (a : Answer) : Guards I (showAnswer place a) fun _ => True := by
  cases a with
  | taxable b => cases b <;> exact .say _ _
  | zones zs p =>
    simp only [showAnswer]
    split
    · exact (Guards.say _ _).bind fun _ _ => guards_showFooter place p
    · exact (guards_showZones place zs).bind fun _ _ => guards_showFooter place p
  | addresses xs p =>
    simp only [showAnswer]
    split
    · exact (Guards.say _ _).bind fun _ _ => (Guards.forM _ (.say place)).bind fun _ _ => guards_showFooter place p
    · exact (Guards.forM _ (.say place)).bind fun _ _ => guards_showFooter place p
  | zone z => exact guards_showZones place [z]

theorem guards_soundGenesis (place : Place) (c : Config) (json : Bool) (path : Text) :
    Guards I (soundGenesis place c json path) fun _ => True :=
  (Guards.readFile _ _).bind fun _ _ => (Guards.orReport fun _ _ => trivial).bind fun _ _ =>
    (Guards.orReport fun _ _ => trivial).bind fun _ _ => .pure trivial

theorem guards_ask (place : Place) (c : Config) (json : Bool) (q : Query) :
    Guards Disk.Legible (ask place c json q) fun _ => True := by
  refine (guards_existing place c).bind fun r hr => ?_
  refine (guards_reading (Registry.reads_answer q) hr).bind fun x _ => ?_
  refine (Guards.orReport fun _ _ => trivial).bind fun a _ => ?_
  split
  · exact .line _ _
  · exact guards_showAnswer place a

theorem guards_exportTo (place : Place) (c : Config) (out : Option Text) (format : GenesisState.Format) :
    Guards Disk.Legible (exportTo place c out format) fun _ => True := by
  refine (guards_existing place c).bind fun r hr => ?_
  refine (guards_reading (Registry.reads_exportState _) hr).bind fun x _ => ?_
  refine (Guards.orReport fun _ _ => trivial).bind fun s _ => ?_
  cases out with
  | none => exact .line _ _
  | some p =>
    refine (Guards.save p fun d name hd => hd.put _ fun r h => ?_).bind fun _ _ => .say _ _
    exact Store.File.eq_empty_of_read_text h ▸ .empty

theorem guards_perform (place : Place) (c : Config) (json : Bool) (file : Text) (out : Option Text) (k : Command) :
    Guards Disk.Legible (k.perform place c json file out) fun _ => True := by
  have hchange : ∀ {α : Type} {a : Action α} (ch : Registry.Change),
      (∀ s, (a.run s).2 = ((ch.act c.settings).run s).2) →
      Guards Disk.Legible (workOn place c.dbPath a) fun _ => True := fun ch h =>
    guards_workOn fun r hr => h ⟨.ofRecords r, []⟩ ▸ hr.committed c.settings ch
  have hexcerpt : ∀ e : Excerpt, Guards Disk.Legible (excerptRequest e) fun _ => True := fun e => by
    unfold excerptRequest
    split
    · exact .pure trivial
    · exact .stop _
  cases k with
  | taxable s r => exact guards_ask place c json _
  | zones e => exact (hexcerpt e).bind fun p _ => guards_ask place c json _
  | addresses z e => exact (hexcerpt e).bind fun p _ => guards_ask place c json _
  | zone n => exact guards_ask place c json _
  | change k authority name flags members =>
    refine Guards.bind (P := fun _ => True) ?_ fun _ _ => .say _ _
    exact (hchange (.message _) fun _ => rfl).bind fun _ _ => .orReport fun _ _ => trivial
  | validateGenesis f =>
    refine (guards_soundGenesis place c json file).bind fun s _ => ?_
    split
    · exact .line _ _
    · exact .say _ _
  | importGenesis f =>
    refine (guards_soundGenesis place c false file).bind fun s _ => ?_
    refine (hchange (.importState s) fun _ => rfl).bind fun _ _ => ?_
    exact (Guards.orReport fun _ _ => trivial).bind fun _ _ => .say _ _
  | exportGenesis _ format =>
    simp only [Command.perform]
    split
    · exact guards_exportTo place c _ _
    · exact .stop _
  | migrate f name =>
    refine (Guards.readFile _ _).bind fun _ _ => (Guards.orReport fun _ _ => trivial).bind fun members _ => ?_
    refine (hchange (.migrate members name) fun s => ?_).bind fun _ _ => ?_
    · rw [Registry.Change.act, Action.run_bind]
      rcases (Registry.migrate c.settings members name).run s with ⟨_ | _, _⟩ <;> rfl
    · exact (Guards.orReport fun _ _ => trivial).bind fun _ _ => .say _ _

theorem guards_ifGiven {find : Text → Shell (StateM Disk) Text} (h : ∀ p, Guards I (find p) fun _ => True)
    (path : Option Text) : Guards I (Invocation.ifGiven find path) fun _ => True := by
  cases path with
  | none => exact .pure trivial
  | some p => exact (h p).bind fun _ _ => .pure trivial

theorem guards_request (place : Place) (request : Request) :
    Guards Disk.Legible (request.perform place) fun _ => True := by
  cases request with
  | version => exact .say _ _
  | help => exact .line _ _
  | run i =>
    exact (guards_ifGiven (.present place) _).bind fun _ _ => (guards_ifGiven (.present place) _).bind fun file _ =>
      (guards_ifGiven (.resolve place) _).bind fun _ _ => (guards_ifGiven (.resolve place) _).bind fun out _ =>
        (guards_configuration place _).bind fun c _ => guards_perform place _ i.json _ _ i.command

/-- **A run keeps the databases legible**, whatever it is asked and however it ends. -/
theorem legible_run (place : Place) (words : List Text) {d : Disk} (hd : d.Legible) :
    (StateT.run (ExemptZones.run place words : StateM Disk Run) d).2.Legible := by
  cases hw : Request.read words with
  | error e =>
    rw [ExemptZones.run, hw]
    exact hd
  | ok request =>
    have h := (guards_request place request d {} hd).1
    rcases hrun : StateT.run (StateT.run (ExceptT.run (request.perform place : Shell (StateM Disk) Unit)) {}) d with
      ⟨⟨x, t⟩, d'⟩
    rw [run_of_perform hw hrun]
    rwa [hrun] at h

end Shell

namespace Disk

/-- The disk came to be by runs of the program, and between them by work on files by hand. By hand no database is made
that has records, but for copies of one that is there. -/
inductive Reachable : Disk → Prop where
  | blank : Reachable {}
  | byHand {d d' : Disk} (before : Reachable d)
    (own : ∀ name b r, d'.entry name = .file b → Store.File.read b = .ok r → r = .empty ∨ ∃ n, d.entry n = .file b) :
    Reachable d'
  | byRun {d : Disk} (before : Reachable d) (place : Place) (words : List Text) :
    Reachable (StateT.run (run place words : StateM Disk Run) d).2

/-- **The databases on a reachable disk are legible.** -/
theorem Reachable.legible {d : Disk} (h : d.Reachable) : d.Legible := by
  induction h with
  | blank => exact fun name b r hl => by cases hl
  | byHand _ own ih =>
    intro name b r hl hr
    obtain rfl | ⟨n, hn⟩ := own name b r hl hr
    · exact .empty
    · exact ih n b r hn hr
  | byRun _ place words ih => exact Shell.legible_run place words ih

end Disk

end ExemptZones
