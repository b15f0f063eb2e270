import Mathlib.Logic.Function.Basic
import ExemptZones.Proofs.Contents

/-
Views as maps in the order of their keys. A view scans one range of the store, whose upper bound is the least key
above all keys of the view, so what a scan answers is the part of the map that the view shows, whatever was
written before and through which view. Writes that follow a scan do not reach what it has answered.

`keyAbove_least`: the bound lets in all keys of a view and no others, and is missing only where there is none.
`View.scan_exact`: a scan after any history of writes, told by the map that the writes make.
`View.range_changed_while_read`: deleting, or writing anew, what a scan yields, one record after the other.
-/

namespace ExemptZones

/-! ## The key above a beginning -/

section KeyAbove

variable {p k e : Bytes}

theorem inRange_keyAbove_iff :
    p <+: k ↔ p ≤ k ∧ ∀ e, keyAbove p = some e → k < e := by
  rw [← List.isPrefixOf_iff_prefix, ← inRange_keyAbove, Records.inRange_iff]
  simp only [Option.some.injEq, forall_eq', List.not_lt]

/-- A key above all that start with `p` does not start with it. -/
theorem not_prefix_of_above (h : ∀ k, p <+: k → k < e) : ¬ p <+: e := fun hp =>
  Bytes.lt_irrefl e (h e hp)

/-- **The bound of a view.** The key above a beginning is greater than every key with that beginning, has it not
itself, is the least such key, and has no other keys below it from the beginning on. There is none exactly if no key
is above all those with the beginning; then all keys from the beginning on have it. -/
theorem keyAbove_least (p : Bytes) :
    (∀ e, keyAbove p = some e →
      (∀ k, p <+: k → k < e) ∧ (∀ k, p ≤ k → k < e → p <+: k) ∧ ¬ p <+: e ∧
        ∀ e', (∀ k, p <+: k → k < e') → e ≤ e') ∧
    (keyAbove p = none ↔ ¬ ∃ e, ∀ k, p <+: k → k < e) ∧
    (keyAbove p = none → ∀ k, p ≤ k → p <+: k) := by
  have hnone : keyAbove p = none → ∀ k, p ≤ k → p <+: k := fun h k hk =>
    inRange_keyAbove_iff.2 ⟨hk, fun e he => by rw [h] at he; cases he⟩
  have hsome : ∀ e, keyAbove p = some e → (∀ k, p <+: k → k < e) ∧ ∀ k, p ≤ k → k < e → p <+: k := fun e he => by
    refine ⟨fun k hk => (inRange_keyAbove_iff.1 hk).2 e he, fun k hk hlt => ?_⟩
    refine inRange_keyAbove_iff.2 ⟨hk, fun e' he' => ?_⟩
    obtain rfl : e = e' := Option.some.inj (he.symm.trans he')
    exact hlt
  -- Whatever is above all keys with the beginning is above the beginning.
  have hbelow : ∀ e, (∀ k, p <+: k → k < e) → p ≤ e := fun e h => Std.le_of_lt (h p (List.prefix_refl p))
  refine ⟨fun e he => ?_, ⟨fun h => ?_, fun h => ?_⟩, hnone⟩
  · obtain ⟨habove, honly⟩ := hsome e he
    refine ⟨habove, honly, not_prefix_of_above habove, fun e' h' => List.not_lt.1 fun hlt => ?_⟩
    exact not_prefix_of_above h' (honly e' (hbelow e' h') hlt)
  · rintro ⟨e, he⟩
    exact not_prefix_of_above he (hnone h e (hbelow e he))
  · cases hk : keyAbove p with
    | none => rfl
    | some e => exact absurd ⟨e, (hsome e hk).1⟩ h

end KeyAbove

example : keyAbove [1, 0xff, 0xff] = some [2] ∧ keyAbove [0xff, 0xff] = none := by decide

/-! ## Histories of writes -/

/-- A write to the store itself, or through a view of it. -/
inductive Write where
  | set (through : Option View) (k x : Bytes)
  | delete (through : Option View) (k : Bytes)

namespace Write

def through : Write → Option View
  | .set v _ _ | .delete v _ => v

def act : Write → Action Unit
  | .set none k x => Store.set k x
  | .set (some v) k x => v.set k x
  | .delete none k => Store.delete k
  | .delete (some v) k => v.delete k

/-- The key of the store that a write names. -/
def place : Write → Bytes
  | .set v k _ | .delete v k => v.elim k fun v => v.beginning ++ k

/-- What a write leaves under that key. -/
def left : Write → Option Bytes
  | .set _ _ x => some x
  | .delete _ _ => none

/-- What a write makes of a map from keys to values. -/
def apply (m : Bytes → Option Bytes) (w : Write) : Bytes → Option Bytes :=
  Function.update m w.place w.left

/-- What a write makes of records. -/
def applyTo (r : Records) (w : Write) : Records :=
  match w.left with
  | some x => r.insert w.place x
  | none => r.erase w.place

theorem get?_applyTo (r : Records) (w : Write) : (w.applyTo r).get? = w.apply r.get? := by
  funext k
  cases w with
  | set v k' x => simp only [applyTo, left, Records.get?_insert, apply, Function.update_apply, eq_comm]
  | delete v k' => simp only [applyTo, left, Records.get?_erase, apply, Function.update_apply, eq_comm]

variable {s : Session}

theorem run_act (hs : s.store.link = .live) (w : Write) : w.act.run s = (.ok (), s.write (w.applyTo s.records)) := by
  rcases w with ⟨_ | v, k, x⟩ | ⟨_ | v, k⟩
  · exact Store.run_set hs k x
  · exact v.run_set hs k x
  · exact Store.run_delete hs k
  · exact v.run_delete hs k

/-- Writes one after the other make of the records, as a map, what each makes of the map. -/
theorem run_history (hs : s.Ready) (ws : List Write) :
    ∃ r, (ws.forM act).run s = (.ok (), s.write r) ∧ r.get? = ws.foldl apply s.records.get? := by
  induction ws generalizing s with
  | nil => exact ⟨s.records, by rw [hs.write_records]; rfl, rfl⟩
  | cons w ws ih =>
    obtain ⟨r, hrun, hr⟩ := ih (hs.write (w.applyTo s.records))
    refine ⟨r, ?_, ?_⟩
    · rw [Action.run_forM_cons, run_act hs.live]
      simpa only [Session.write_write] using hrun
    · rw [hr, Session.records_write, get?_applyTo, List.foldl_cons]

end Write

/-! ## What a scan answers -/

namespace View

variable {s : Session}

/-- The records of a view in a range of its keys. -/
def inside (v : View) (start stop : Option Bytes) (r : Records) : List Record :=
  (v.contents r).filter fun e => Records.inRange start stop e.1

theorem mem_inside {v : View} {start stop : Option Bytes} {r : Records} {k x : Bytes} :
    (k, x) ∈ v.inside start stop r ↔
      r.get? (v.key k) = some x ∧ (∀ a, start = some a → a ≤ k) ∧ ∀ b, stop = some b → k < b := by
  simp only [inside, List.mem_filter, mem_contents, Records.inRange_iff, List.not_lt]

theorem ascending_inside (v : View) (start stop : Option Bytes) (r : Records) : Ascending (v.inside start stop r) :=
  (v.ascending_contents r).filter _

theorem run_scan_inside (v : View) (hs : s.store.link = .live) (start stop : Option Bytes) (reverse : Bool) :
    (v.scan start stop reverse).run s = (.ok (Store.ordered reverse (v.inside start stop s.records)), s) :=
  v.run_scan_range hs start stop reverse

/-- The keys of two views, of which neither begins as the other does, are different. -/
theorem key_ne_key {p q : View} (hp : ¬ p.beginning <+: q.beginning) (hq : ¬ q.beginning <+: p.beginning)
    (k k' : Bytes) : p.key k ≠ q.key k' := fun h =>
  (List.prefix_or_prefix_of_prefix ⟨k, h⟩ ⟨k', rfl⟩).elim hp hq

/-- A write through a view leaves alone what another shows that shares no key with it. -/
theorem inside_applyTo {p q : View} (hp : ¬ p.beginning <+: q.beginning) (hq : ¬ q.beginning <+: p.beginning)
    {w : Write} (hw : w.through = some p) (start stop : Option Bytes) (r : Records) :
    q.inside start stop (w.applyTo r) = q.inside start stop r := by
  have hplace : ∀ k, q.key k ≠ w.place := fun k => by
    cases w with
    | set v k' x => cases hw; exact (key_ne_key hp hq k' k).symm
    | delete v k' => cases hw; exact (key_ne_key hp hq k' k).symm
  refine List.Pairwise.eq_of_mem_iff (q.ascending_inside ..) (q.ascending_inside ..) ?_
  rintro ⟨k, x⟩
  rw [mem_inside, mem_inside, Write.get?_applyTo, Write.apply, Function.update_of_ne (hplace k)]

/-- **Views are maps in the order of their keys, and independent of each other.** After any history of writes a scan
of a view answers each pair of the map so far whose key has the view's beginning and lies in the range, once, in the
order of the keys or in the reverse of it; look-ups say the same. A write through one view does not show in another
if neither begins as the other does. -/
theorem scan_exact (s : Session) (hs : s.Ready) (history : List Write) :
    ∃ t, (history.forM Write.act).run s = (.ok (), t) ∧
      let held := history.foldl Write.apply s.records.get?
      (∀ (v : View) (start stop : Option Bytes), ∃ es : List Record,
        (∀ reverse, (v.scan start stop reverse).run t = (.ok (if reverse then es.reverse else es), t)) ∧
        es.Pairwise (fun a b => a.1 < b.1) ∧
        ∀ k x, (k, x) ∈ es ↔
          held (v.beginning ++ k) = some x ∧ (∀ a, start = some a → a ≤ k) ∧ ∀ b, stop = some b → k < b) ∧
      (∀ (v : View) (k : Bytes), (v.get k).run t = (.ok (held (v.beginning ++ k)), t) ∧
        (v.has k).run t = (.ok (held (v.beginning ++ k)).isSome, t)) ∧
      ∀ (p q : View), ¬ p.beginning <+: q.beginning → ¬ q.beginning <+: p.beginning →
        ∀ w : Write, w.through = some p → ∃ u, w.act.run t = (.ok (), u) ∧
          ∀ start stop reverse,
            ((q.scan start stop reverse).run u).1 = ((q.scan start stop reverse).run t).1 := by
  obtain ⟨r, hrun, hr⟩ := Write.run_history hs history
  have ht : (s.write r).Ready := hs.write r
  have hheld : (s.write r).records.get? = history.foldl Write.apply s.records.get? := by rw [Session.records_write, hr]
  refine ⟨s.write r, hrun, fun v start stop => ?_, fun v k => ?_, fun p q hp hq w hw => ?_⟩
  · refine ⟨v.inside start stop (s.write r).records, v.run_scan_inside ht.live start stop, v.ascending_inside .., ?_⟩
    intro k x
    rw [mem_inside, hheld]
    rfl
  · rw [v.run_get ht.live, v.run_has ht.live, hheld]
    exact ⟨rfl, rfl⟩
  · refine ⟨_, w.run_act ht.live, fun start stop reverse => ?_⟩
    rw [q.run_scan_inside (ht.write _).live, q.run_scan_inside ht.live, Session.records_write,
      inside_applyTo hp hq hw]

/-- A view whose keys have no upper bound. It shows what was written to the store itself and through a wider view,
and does not show what was deleted again. -/
theorem scan_exact_unbounded :
    let history : List Write := [.set none [255, 255, 3] [1], .set (some ⟨[255]⟩) [255] [2], .set (some ⟨[]⟩) [254] [3],
      .set (some ⟨[255, 255]⟩) [9] [4], .delete (some ⟨[255]⟩) [255, 9]]
    ∃ t, (history.forM Write.act).run ⟨.empty, []⟩ = (.ok (), t) ∧
      ∀ reverse, ((⟨[255]⟩ : View).scan (some [255]) none reverse).run t =
        (.ok (if reverse then [([255, 3], [1]), ([255], [2])] else [([255], [2]), ([255, 3], [1])]), t) := by
  intro history
  obtain ⟨t, hrun, hscan, -⟩ := scan_exact ⟨.empty, []⟩ ⟨rfl, fun _ => rfl⟩ history
  obtain ⟨es, hes, -⟩ := hscan ⟨[255]⟩ (some [255]) none
  have ht : (((⟨[255]⟩ : View).scan (some [255]) none false).run
      ((history.forM Write.act).run ⟨.empty, []⟩).2).1.toOption = some [([255], [2]), ([255, 3], [1])] := by
    decide +kernel
  rw [hrun, hes false] at ht
  cases Option.some.inj ht
  exact ⟨t, hrun, fun reverse => by rw [hes reverse]; cases reverse <;> rfl⟩

/-! ## Changing what a scan yields -/

/-- The scan of the whole store, as a view, is the scan of the store. -/
theorem scan_whole (start stop : Option Bytes) (reverse : Bool) :
    whole.scan start stop reverse = Store.scan start stop reverse := by
  have hrange : ∀ r : Records, r.range (some (whole.lower start)) (whole.upper stop) = r.range start stop := fun r => by
    cases start <;> cases stop <;> simp [Records.range, Records.inRange, lower, upper, whole, key, keyAbove] <;> rfl
  have hstrip : whole.strip = id := funext fun e => by simp [strip, whole]
  simp [scan, Store.scan, hrange, hstrip]

/-- The records that a scan finds are deleted, in either direction. -/
theorem run_deleteRange (v : View) (hs : s.Ready) (start stop : Option Bytes) (reverse : Bool) :
    (v.deleteRange start stop reverse).run s = (.ok (Store.ordered reverse (v.inside start stop s.records)),
      s.write (((v.inside start stop s.records).map fun e => v.key e.1).foldl Records.erase s.records)) := by
  have hkeys : ∀ es : List Record, es.forM (fun e => v.delete e.1) = (es.map (·.1)).forM v.delete := fun es => by
    rw [List.forM_eq_forM, List.forM_eq_forM, List.forM_map]
  have horder : ((Store.ordered reverse (v.inside start stop s.records)).map fun e => v.key e.1).foldl Records.erase
      s.records = ((v.inside start stop s.records).map fun e => v.key e.1).foldl Records.erase s.records := by
    simp only [Records.foldl_erase, Store.ordered]
    refine Records.keep_congr fun e _ => ?_
    cases reverse <;> simp
  simp only [deleteRange, Action.run_bind, v.run_scan_inside hs.live, hkeys, v.run_forM_delete hs, List.map_map,
    Function.comp_def, horder, Action.run_pure]

/-- The copy of a record under the key that follows its own at once. -/
def copy (v : View) (e : Record) : Record :=
  (v.key (e.1 ++ [0]), e.2)

/-- Two records of a view have different places for their copies. -/
theorem nodup_copy (v : View) (start stop : Option Bytes) (r : Records) :
    ((v.inside start stop r).map fun e => (v.copy e).1).Nodup := by
  refine List.pairwise_map.2 ((v.ascending_inside start stop r).imp fun hlt he => ?_)
  exact Bytes.ne_of_lt hlt (List.append_cancel_right (key_injective he))

/-- Copies are written one after the other. -/
theorem run_forM_copy (v : View) (hs : s.Ready) (es : List Record) :
    (es.forM fun e => v.set (e.1 ++ [0]) e.2).run s = (.ok (), s.write (s.records.insertAll v.copy es)) := by
  induction es generalizing s with
  | nil => simp [hs.write_records, Records.insertAll]
  | cons e es ih =>
    simp only [Action.run_forM_cons, v.run_set hs.live, ih (hs.write _), Session.records_write, Session.write_write,
      Records.insertAll, List.foldl_cons, copy]

/-- The records that a scan finds are copied, in either direction. -/
theorem run_duplicateRange (v : View) (hs : s.Ready) (start stop : Option Bytes) (reverse : Bool) :
    (v.duplicateRange start stop reverse).run s = (.ok (Store.ordered reverse (v.inside start stop s.records)),
      s.write (s.records.insertAll v.copy (v.inside start stop s.records))) := by
  have horder : s.records.insertAll v.copy (Store.ordered reverse (v.inside start stop s.records)) =
      s.records.insertAll v.copy (v.inside start stop s.records) := by
    cases reverse
    · rfl
    · exact Records.insertAll_reverse _ (v.nodup_copy ..) _
  simp only [duplicateRange, Action.run_bind, v.run_scan_inside hs.live, v.run_forM_copy hs, horder, Action.run_pure]

/-- **A range that is changed while it is read.** A scan yields the records that were in the range when it began, in
either direction, whatever is written meanwhile. Deleting each of them leaves exactly the records outside the range.
Writing the value of each a second time, under its key and a zero byte, comes to an end and leaves the map as it
was but for these keys, also where they lie in the range themselves, and the same in both directions. The scan of
the store itself is that of the view of everything. -/
theorem range_changed_while_read (v : View) (start stop : Option Bytes) (s : Session) (hs : s.Ready) :
    ∃ (es : List Record) (deleted copied : Session),
      es.Pairwise (fun a b => a.1 < b.1) ∧
      (∀ k x, (k, x) ∈ es ↔
        s.records.get? (v.key k) = some x ∧ (∀ a, start = some a → a ≤ k) ∧ ∀ b, stop = some b → k < b) ∧
      (∀ reverse, (v.deleteRange start stop reverse).run s = (.ok (if reverse then es.reverse else es), deleted)) ∧
      (∀ e ∈ es, deleted.records.get? (v.key e.1) = none) ∧
      (∀ k, (∀ e ∈ es, v.key e.1 ≠ k) → deleted.records.get? k = s.records.get? k) ∧
      (∀ reverse, (v.duplicateRange start stop reverse).run s = (.ok (if reverse then es.reverse else es), copied)) ∧
      (∀ e ∈ es, copied.records.get? (v.key (e.1 ++ [0])) = some e.2) ∧
      (∀ k, (∀ e ∈ es, v.key (e.1 ++ [0]) ≠ k) → copied.records.get? k = s.records.get? k) ∧
      ∀ reverse,
        whole.deleteRange start stop reverse = (do
          let es ← Store.scan start stop reverse
          es.forM fun e => Store.delete e.1
          return es) ∧
        whole.duplicateRange start stop reverse = (do
          let es ← Store.scan start stop reverse
          es.forM fun e => Store.set (e.1 ++ [0]) e.2
          return es) := by
  refine ⟨v.inside start stop s.records, _, _, v.ascending_inside .., fun k x => mem_inside,
    v.run_deleteRange hs start stop, fun e he => ?_, fun k hk => ?_, v.run_duplicateRange hs start stop,
    fun e he => ?_, fun k hk => ?_, fun reverse => ?_⟩
  · rw [Session.records_write, Records.get?_foldl_erase, if_pos (List.mem_map_of_mem he)]
  · rw [Session.records_write, Records.get?_foldl_erase, if_neg (by simpa using hk)]
  · rw [Session.records_write]
    exact Records.get?_insertAll_of_mem _ (v.nodup_copy ..) he _
  · rw [Session.records_write]
    exact Records.get?_insertAll_of_forall_ne _ hk _
  · rw [deleteRange, duplicateRange, scan_whole]
    exact ⟨rfl, rfl⟩

/-- A key and the two that follow it at once, of which the second is not there before: each value moves on by one
key, and no further. -/
theorem range_changed_while_read_chain :
    let v : View := ⟨[7]⟩
    let r := ((Records.empty.insert [7, 1] [10]).insert [7, 1, 0] [11]).insert [8] [12]
    let s : Session := ⟨.ofRecords r, []⟩
    let es := [([1], [10]), ([1, 0], [11])]
    ∃ t, (∀ reverse, (v.duplicateRange (some [1]) none reverse).run s = (.ok (if reverse then es.reverse else es), t)) ∧
      t.records.entries = [([7, 1], [10]), ([7, 1, 0], [10]), ([7, 1, 0, 0], [11]), ([8], [12])] := by
  intro v r s es
  obtain ⟨es', -, t, -, -, -, -, -, hrun, -⟩ := v.range_changed_while_read (some [1]) none s ⟨rfl, fun _ => rfl⟩
  have hes : ((v.duplicateRange (some [1]) none false).run s).1.toOption = some es := by decide +kernel
  have ht : ((v.duplicateRange (some [1]) none false).run s).2.records.entries =
      [([7, 1], [10]), ([7, 1, 0], [10]), ([7, 1, 0, 0], [11]), ([8], [12])] := by decide +kernel
  rw [hrun false] at hes ht
  obtain rfl : es' = es := Option.some.inj hes
  exact ⟨t, hrun, ht⟩

end View

end ExemptZones
