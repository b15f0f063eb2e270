import ExemptZones.Proofs.Browsing
import ExemptZones.Proofs.CommandLine
import ExemptZones.Proofs.Databases
import ExemptZones.Proofs.JsonChars

/-
What a listing prints as JSON: its records, and the key of the next page. A reader of the output finds just these.

`Listing.run_answer`: what the registry answers from legible records.
`Listing.sheet?_write`: what is read of the output that is printed then.
`Listing.shows_part`: a command line that asks for a part of a listing prints that part, and leaves the disk as it is.
-/

namespace ExemptZones

open ExemptZones.Action
open Registry (Legible LegibleRecord zoneView memberView zoneOf addressOf zoneKey memberKey)

/-! ## Listings of a registry -/

namespace Registry

variable {r : Records} {e : Record}

theorem Legible.exists_zone (h : Legible r) (he : e ∈ zoneView.contents r) :
    ∃ z : Zone, z.name ≠ "" ∧ e = (Utf8.encode z.name, z.encode) := by
  obtain ⟨k, v⟩ := e
  obtain ⟨z, hz, hk, rfl⟩ : ∃ z : Zone, z.name ≠ "" ∧ zoneView.key k = zoneKey z.name ∧ v = z.encode := by
    generalize hk : zoneView.key k = k'
    cases hk ▸ h _ (Records.mem_entries_iff.2 (View.mem_contents.1 he)) with
    | zone named => exact ⟨_, named, rfl, rfl⟩
    | member named => exact absurd hk (zoneView_key_ne_memberView_key _ _)
  exact ⟨z, hz, by rw [View.key_injective hk]⟩

theorem Legible.exists_member (h : Legible r) (he : e ∈ memberView.contents r) :
    ∃ address zone : String, address ≠ "" ∧ e = (Utf8.encode address, Utf8.encode zone) := by
  obtain ⟨k, v⟩ := e
  obtain ⟨a, n, ha, hk, rfl⟩ : ∃ a n : String, a ≠ "" ∧ memberView.key k = memberKey a ∧ v = Utf8.encode n := by
    generalize hk : memberView.key k = k'
    cases hk ▸ h _ (Records.mem_entries_iff.2 (View.mem_contents.1 he)) with
    | zone named => exact absurd hk.symm (zoneView_key_ne_memberView_key _ _)
    | member named => exact ⟨_, _, named, rfl, rfl⟩
  exact ⟨a, n, ha, by rw [View.key_injective hk]⟩

end Registry

namespace Listing

def view : Listing → View
  | .zones => zoneView
  | .addresses _ => memberView

/-- The name of the zone has an encoded form, if the listing is about one. -/
def Encodable : Listing → Prop
  | .zones => True
  | .addresses zone => ∃ name : String, zone = name

/-- The records of the view that are listed. No zone has a name without an encoded form. -/
def wanted : Listing → Record → Bool
  | .zones => fun _ => true
  | .addresses (.plain zone) => fun e => zone.isEmpty || e.2 = Utf8.encode zone
  | .addresses (.broken _) => fun _ => false

def query : Listing → PageRequest → Query
  | .zones, p => .zones (some p)
  | .addresses zone, p => .addresses zone (some p)

def answer : Listing → List Record → PageResponse → Answer
  | .zones, es, p => .zones (es.map fun e => zoneOf e) p
  | .addresses _, es, p => .addresses (es.map fun e => addressOf e) p

/-- What is shown of a record. -/
def shown : Listing → Record → Value
  | .zones => fun e => (zoneOf e).toValue
  | .addresses _ => fun e => .text (addressOf e)

variable {l : Listing} {s : Session} {r : Records}

/-- **What the registry answers.** A listing that is not refused has the page that it asks for. -/
theorem run_answer (he : l.Encodable) (hs : s.store.link = .live) (h : Legible s.records) {p : PageRequest}
    (hp : ¬(p.key.isSome ∧ p.offset > 0)) :
    ∃ walk page, IsPage p l.wanted (p.candidates (l.view.contents s.records)) walk page ∧
      (Registry.answer (some (l.query p))).run s = (.ok (l.answer (walk.collected l.wanted) page), s) := by
  have hsome : (some p).getD {} = p := rfl
  cases l with
  | zones =>
    have hread : ∀ e ∈ zoneView.contents s.records, (Registry.decodeZone e.2).run s = (.ok (zoneOf e), s) := by
      intro e he
      obtain ⟨z, -, rfl⟩ := h.exists_zone he
      rw [Registry.decodeZone, zoneOf, z.decode_encode]
      rfl
    obtain ⟨walk, page, hpage, hrun⟩ := Registry.run_read hs hread hsome hp
    have hlist : (Registry.listZones (some p)).run s =
        (.ok ((walk.collected (wanted .zones)).map zoneOf, page), s) := hrun
    refine ⟨walk, page, hpage, ?_⟩
    simp only [query, Registry.answer, run_bind, hlist, run_pure, answer, List.map_map, Function.comp_def]
  | addresses zone =>
    obtain ⟨zone, rfl⟩ := he
    have hread : ∀ e ∈ memberView.contents s.records, (Registry.decodeText e.1).run s = (.ok (addressOf e), s) := by
      intro e he
      obtain ⟨a, n, -, rfl⟩ := h.exists_member he
      rw [Registry.decodeText, addressOf, Utf8.decode?_encode]
      rfl
    obtain ⟨walk, page, hpage, hrun⟩ := Registry.run_read hs hread hsome hp
    have hlist : (Registry.listAddresses zone (some p)).run s =
        (.ok ((walk.collected (wanted (.addresses zone))).map addressOf, page), s) := hrun
    refine ⟨walk, page, hpage, ?_⟩
    simp only [query, Registry.answer, run_bind, hlist, run_pure, answer, List.map_map, Function.comp_def]

/-- No record that is listed has an empty key. -/
theorem key_ne_nil (h : Legible r) {e : Record} (he : e ∈ l.view.contents r) : e.1 ≠ [] := by
  have hne : ∀ x : String, x ≠ "" → Utf8.encode x ≠ [] := fun x hx hn =>
    hx (Utf8.encode_injective (hn.trans rfl))
  cases l with
  | zones =>
    obtain ⟨z, hz, rfl⟩ := h.exists_zone he
    exact hne _ hz
  | addresses zone =>
    obtain ⟨a, n, ha, rfl⟩ := h.exists_member he
    exact hne _ ha

/-- Records that are shown alike have the same key. -/
theorem key_eq_of_shown (h : Legible r) {e e' : Record} (he : e ∈ l.view.contents r) (he' : e' ∈ l.view.contents r)
    (hs : l.shown e = l.shown e') : e.1 = e'.1 := by
  cases l with
  | zones =>
    obtain ⟨z, -, rfl⟩ := h.exists_zone he
    obtain ⟨z', -, rfl⟩ := h.exists_zone he'
    simp only [shown, zoneOf, Zone.decode_encode] at hs
    have hz : Except.ok (ε := List Shape.Fault) z = .ok z' := by
      rw [← z.ofValue_toValue, ← z'.ofValue_toValue]
      exact congrArg _ hs
    rw [Except.ok.inj hz]
  | addresses zone =>
    obtain ⟨a, n, -, rfl⟩ := h.exists_member he
    obtain ⟨a', n', -, rfl⟩ := h.exists_member he'
    simp only [shown, addressOf, Utf8.decode?_encode] at hs
    cases hs
    rfl

end Listing

/-! ## The output -/

/-- What is seen in the output of a listing: its records, and the key of the next page. -/
structure Sheet where
  records : List Value
  next : Option String

namespace Listing

open Shape

/-- The sheet that an object shows. -/
def sheet (l : Listing) : Reader Sheet :=
  record [l.name, "pagination"] fun es =>
    ((fieldOf l.name (listOf .ok) es).both (fieldOf "pagination" page es)).map fun (vs, k) => ⟨vs, k⟩
where
  page : Reader (Option String) := fun
    | .map es => fieldOf "next_key" (orNull plainText) es
    | _ => refuse .notObject

/-- The sheet that is read of an output, if it is the JSON of one. -/
def sheet? (l : Listing) (output : String) : Option Sheet :=
  (Json.read .kept output).bind fun v => (l.sheet v).toOption

/-- The sheet with these records, and the next page at that one. -/
def sheetOf (l : Listing) (es : List Record) (next : Option Record) : Sheet :=
  ⟨es.map l.shown, next.map fun e => Hex.encode e.1⟩

theorem plain_shown (l : Listing) (e : Record) : Json.Plain (l.shown e) := by
  cases l with
  | zones => exact (zoneOf e).plain_toValue
  | addresses zone => exact .text _

/-- The JSON value of a listing. -/
def value (l : Listing) (es : List Record) (next : Option Record) : Value :=
  .object [(l.name, .list (es.map l.shown)),
    ("pagination", .object [("next_key", .ofText? (next.map fun e => .plain (Hex.encode e.1))), ("total", .null)])]

/-- What is written of an answer, if the key of the next page is not empty: an empty key is not shown. -/
theorem answerValue_answer (l : Listing) (es : List Record) {next : Option Record}
    (hn : ∀ e, next = some e → e.1 ≠ []) :
    Shell.answerValue (l.answer es ⟨next.map (·.1), none⟩) = l.value es next := by
  have hkey : Shell.nextKey? ⟨next.map (·.1), none⟩ = next.map fun e => Hex.encode e.1 := by
    cases next with
    | none => rfl
    | some e =>
      obtain ⟨b, bs, hb⟩ := List.exists_cons_of_ne_nil (hn e rfl)
      simp only [Shell.nextKey?, Option.map_some, hb]
  cases l <;> cases next <;> simp only [answer, Shell.answerValue, Shell.pageValue, hkey, Value.ofTexts, List.map_map] <;>
    rfl

theorem plain_value (l : Listing) (es : List Record) (next : Option Record) : Json.Plain (l.value es next) := by
  have hnext : Json.Plain (.ofText? (next.map fun e => .plain (Hex.encode e.1))) := by
    cases next with
    | none => exact .null
    | some e => exact .text _
  have hrecords : Json.Plain (.list (es.map l.shown)) := .list (List.forall_mem_map.2 fun e _ => plain_shown l e)
  have hpage : Json.Plain
      (.object [("next_key", .ofText? (next.map fun e => .plain (Hex.encode e.1))), ("total", .null)]) :=
    .object (by simp) (List.forall_mem_cons.2 ⟨hnext, List.forall_mem_singleton.2 .null⟩)
  exact .object (by cases l <;> simp [name])
    (List.forall_mem_cons.2 ⟨hrecords, List.forall_mem_singleton.2 hpage⟩)

theorem sheet_value (l : Listing) (es : List Record) (next : Option Record) :
    l.sheet (l.value es next) = .ok (l.sheetOf es next) := by
  have hitems : items .ok 0 (es.map l.shown) = .ok (es.map l.shown) := by
    simpa using items_map (r := .ok) (f := id) (fun _ => rfl) 0 (es.map l.shown)
  cases l <;> cases next <;>
    simp [value, sheet, sheet.page, name, sheetOf, Value.object, Value.ofText?, Value.ofText, record, strangers, fieldOf,
      field?, listOf, hitems, orNull, plainText, text, Except.map]

/-- **The output reads back** as the records and the key of the next page, if that is not empty. -/
theorem sheet?_write (l : Listing) (es : List Record) {next : Option Record} (hn : ∀ e, next = some e → e.1 ≠ []) :
    l.sheet? (Json.write .prettyAscii (Shell.answerValue (l.answer es ⟨next.map (·.1), none⟩)) ++ "\n") =
      some (l.sheetOf es next) := by
  rw [answerValue_answer l es hn, sheet?, Json.read_write_append _ _ (plain_value l es next) _ (by decide),
    Option.bind_some, sheet_value]
  rfl

end Listing

/-! ## Runs -/

namespace Shell

variable {place : Place} {d : Disk} {c : Config} {path : Text} {r : Records}

/-- A database with these records is in the file at a path. -/
def Stands (place : Place) (d : Disk) (path : Text) (r : Records) : Prop :=
  path ≠ memory ∧
    ∃ b, d.look (Path.absolute place.directory path) = .ok (.file b) ∧ Store.File.decode? b = some r

theorem length_of_decode? {b : Bytes} (h : Store.File.decode? b = some r) : 1 < b.length := by
  unfold Store.File.decode? at h
  split at h
  · cases h
  · rename_i ht
    have hl := congrArg List.length (Decidable.not_not.1 ht)
    have hm : Store.File.mark.length = 15 := by decide +kernel
    rw [List.length_take, hm] at hl
    omega

theorem read_of_decode? {b : Bytes} (h : Store.File.decode? b = some r) : Store.File.read b = .ok r := by
  rw [Store.File.read, if_neg (Nat.not_le.2 (length_of_decode? h)), h]

theorem Stands.legible (h : Stands place d path r) (hd : d.Reachable) : Legible r := by
  obtain ⟨-, b, hl, hb⟩ := h
  obtain ⟨n, -, he⟩ := Disk.look_eq_ok_iff.1 hl
  exact hd.legible n b r he (read_of_decode? hb)

theorem prints_existing (h : Stands place d c.dbPath r) : Prints (existing place c) d r "" := by
  obtain ⟨hm, b, hl, hb⟩ := h
  obtain ⟨n, hn, he⟩ := Disk.look_eq_ok_iff.1 hl
  have hfind : Prints (find n) d (.file b) "" := he ▸ .find n
  have hrequire : Prints (requireDatabase place c) d () "" := by
    refine .bind (y := true) ?_ (.pure ())
    unfold isThere
    rw [hn]
    exact .bind hfind (.pure _)
  have hopen : Prints (openDatabase place c.dbPath) d (.ok r) "" := by
    unfold openDatabase
    dsimp only
    rw [if_neg hm, hn]
    refine .bind hfind ?_
    dsimp only
    rw [if_neg (Nat.not_le.2 (length_of_decode? hb)), read_of_decode? hb]
    exact .pure _
  exact .bind hrequire (.bind hopen (.pure r))

/-- Work that only reads leaves the disk as it is. -/
theorem prints_work {α : Type} {a : Action α} (ha : Reads a) {y : α}
    (hy : (a.run ⟨.ofRecords r, []⟩).1 = .ok y) : Prints (work place path r a) d (.ok y) "" := by
  have hstore := (ha ⟨.ofRecords r, []⟩).1
  unfold work
  rcases h : a.run ⟨.ofRecords r, []⟩ with ⟨x, s⟩
  rw [h] at hy hstore
  subst hy
  have hsame : s.store.committed = r := congrArg Store.committed (show s.store = .ofRecords r from hstore)
  refine .bind (.logged _) ?_
  simp only [hsame, ne_eq, not_true_eq_false, decide_false, Bool.and_false]
  exact .pure _

/-- JSON in ASCII is printed on every terminal. -/
theorem prints_json {v : Value} (hv : Json.Plain v) :
    Prints (line place (Json.write .prettyAscii v)) d () (Json.write .prettyAscii v ++ "\n") := by
  refine .line (place.terminal.printed?_ascii _ fun c hc => ?_)
  rw [Json.write, String.toList_append, String.toList_ofList, List.mem_append] at hc
  rcases hc with hc | hc
  · exact (hv.printed 0).isAscii hc
  · exact List.mem_singleton.1 hc ▸ by decide

theorem prints_ask (h : Stands place d c.dbPath r) {q : Query} {a : Answer}
    (ha : ((Registry.answer (some q)).run ⟨.ofRecords r, []⟩).1 = .ok a) (hv : Json.Plain (answerValue a)) :
    Prints (ask place c true q) d () (Json.write .prettyAscii (answerValue a) ++ "\n") :=
  .bind (prints_existing h) (.bind (prints_work (Registry.reads_answer _) ha) (.bind (.pure a) (prints_json hv)))

end Shell

namespace Listing

open Shell (Stands)

variable {l : Listing} {place : Place} {d : Disk} {reverse : Bool} {words : List Text} {i : Invocation} {c : Config}
  {r : Records}

/-- With these options before the other words the run of a listing goes well, leaves the disk as it is, and prints a
sheet. -/
def Shows (l : Listing) (place : Place) (d : Disk) (words : List Text) (given : List Given) (s : Sheet) : Prop :=
  ∃ out, StateT.run (run place (l.line (spell given ++ words)) : StateM Disk Run) d = (out, d) ∧
    out.ending = .success ∧ l.sheet? out.output = some s

/-- The run of a listing, if its page is found in the records. -/
theorem prints_perform (hc : i.settled place d = .ok c) (hs : Stands place d c.dbPath r) (hj : i.json = true)
    {e : Excerpt} {p : PageRequest} (hp : e.toRequest = .ok p) {a : Answer}
    (ha : ((Registry.answer (some (l.query p))).run ⟨.ofRecords r, []⟩).1 = .ok a)
    (hv : Json.Plain (Shell.answerValue a)) :
    Shell.Prints (Request.perform place (.run { i with command := l.command e })) d ()
      (Json.write .prettyAscii (Shell.answerValue a) ++ "\n") := by
  obtain ⟨config, database, c₀, hgiven, hdatabase, hconfig, rfl⟩ := Shell.prints_configuration hc
  have hexcerpt : Shell.Prints (Shell.excerptRequest e) d p "" := by
    rw [Shell.excerptRequest, hp]
    exact .pure p
  have hask := Shell.prints_ask hs ha hv
  have hcommand : Shell.Prints ((l.command e).perform place (Shell.withDatabase database c₀) i.json "" none) d ()
      (Json.write .prettyAscii (Shell.answerValue a) ++ "\n") := by
    rw [hj]
    cases l <;> exact .bind hexcerpt hask
  have hnone : ∀ {o : Option Text} (find : Text → Shell (StateM Disk) Text), o = none →
      Shell.Prints (Invocation.ifGiven find o) d none "" := by
    rintro _ find rfl
    exact .pure none
  have hfile : (l.command e).file? = none := by cases l <;> rfl
  have hout : (l.command e).out? = none := by cases l <;> rfl
  exact .bind hgiven (.bind (hnone _ hfile) (.bind hdatabase (.bind (hnone _ hout) (.bind hconfig hcommand))))

/-- **A command line that asks for a part of a listing prints that part.** -/
theorem shows_part (he : l.Encodable) (hl : l.Asks reverse words i) (hc : i.settled place d = .ok c)
    (hs : Stands place d c.dbPath r) (hr : Legible r) {given : List Given} {e : Excerpt} {p : PageRequest}
    (hw : Request.read (l.line (spell given ++ words)) = .ok (.run { i with command := l.command e }))
    (hp : e.toRequest = .ok p) (hk : ¬(p.key.isSome ∧ p.offset > 0)) (ht : p.countTotal = false) :
    let es := (p.candidates (l.view.contents r)).filter l.wanted
    l.Shows place d words given
      (l.sheetOf (if p.limit = 0 then es.drop p.offset else (es.drop p.offset).take p.limit)
        (if p.limit = 0 then none else es[p.offset + p.limit]?)) := by
  intro es
  obtain ⟨walk, page, hpage, hrun⟩ := run_answer (l := l) he (s := ⟨.ofRecords r, []⟩) rfl hr hk
  have hcollected : walk.collected l.wanted =
      if p.limit = 0 then es.drop p.offset else (es.drop p.offset).take p.limit := hpage.collected
  have hnext : page.nextKey = (if p.limit = 0 then none else es[p.offset + p.limit]?).map (·.1) := by
    rw [hpage.next]
    split <;> rfl
  have htotal : page.total = none := by
    rw [hpage.total, if_neg fun h => absurd (ht.symm.trans h.1) (by decide)]
  have hmem : ∀ x, (if p.limit = 0 then none else es[p.offset + p.limit]?) = some x → x.1 ≠ [] := fun x hx => by
    split at hx
    · cases hx
    · exact key_ne_nil hr (PageRequest.mem_candidates.1 (List.mem_of_mem_filter (List.mem_of_getElem? hx))).1
  rw [hcollected, show page = ⟨page.nextKey, page.total⟩ from rfl, hnext, htotal] at hrun
  have hv := answerValue_answer l (if p.limit = 0 then es.drop p.offset else (es.drop p.offset).take p.limit) hmem
  obtain ⟨log, hout⟩ := Shell.run_of_prints hw
    (prints_perform hc hs hl.json hp (congrArg Prod.fst hrun) (hv ▸ l.plain_value _ _))
  exact ⟨_, hout, rfl, l.sheet?_write _ hmem⟩

end Listing

end ExemptZones
