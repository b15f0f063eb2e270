import ExemptZones.Proofs.Contents
import ExemptZones.Registry.Listing

/-
What a page holds. A walk over records is compared with the list of those that match: the page is a segment of
that list (`Window.cut`), and the next page starts with the element after it (`Window.after?`).

`Walk.collected_run`, `Walk.nextKey_run`, `Walk.hits_run`: what a walk finds, from any count on.
`Walk.visited_run`: which records it looks at.
`Registry.page_exact`: all of it for a request on a view.
-/

namespace ExemptZones

/-! ## Keys in the order of a listing -/

/-- The order of keys in a listing: ascending, or descending. -/
def Bytes.Before (reverse : Bool) (a b : Bytes) : Prop :=
  if reverse then b < a else a < b

namespace Bytes

/-- The keys up to `k` are those below the key that follows it at once. -/
theorem lt_append_zero_iff {x k : Bytes} : x < k ++ [0] ↔ x ≤ k := by
  induction k generalizing x with
  | nil =>
    cases x with
    | nil => simp
    | cons b x =>
      have hb : ¬ b < 0 := by simp
      have hx : ¬ x < [] := List.not_lt_nil x
      simp [List.cons_lt_cons_iff, hb, hx]
  | cons c k ih =>
    cases x with
    | nil => simp
    | cons b x => simp [List.cons_lt_cons_iff, List.cons_le_cons_iff, ih]

theorem Before.irrefl {reverse : Bool} (a : Bytes) : ¬ Before reverse a a := by
  cases reverse <;> exact lt_irrefl a

theorem Before.trans {reverse : Bool} {a b c : Bytes} (h : Before reverse a b) (h' : Before reverse b c) :
    Before reverse a c := by
  cases reverse
  · exact lt_trans h h'
  · exact lt_trans h' h

end Bytes

theorem pairwise_ordered {reverse : Bool} {es : List Record} (h : Ascending es) :
    (Store.ordered reverse es).Pairwise fun a b => Bytes.Before reverse a.1 b.1 := by
  cases reverse
  · exact h
  · exact List.pairwise_reverse.2 h

/-! ## Segments of a list -/

namespace Window

variable {α : Type} (w : Window)

/-- The elements of a list that fall inside the window, if `hits` were counted before the first. -/
def cut (hits : Nat) (xs : List α) : List α :=
  (match w.stop with
    | some n => xs.take (n - hits)
    | none => xs).drop (w.first - hits)

/-- The first element after the window. -/
def after? (hits : Nat) (xs : List α) : Option α :=
  match w.stop with
  | some n => if hits ≤ n then xs[n - hits]? else none
  | none => none

theorem cut_nil (hits : Nat) : w.cut hits ([] : List α) = [] := by
  unfold cut; split <;> simp

theorem cut_cons (hits : Nat) (x : α) (xs : List α) :
    w.cut hits (x :: xs) = if w.holds hits then x :: w.cut (hits + 1) xs else w.cut (hits + 1) xs := by
  unfold cut holds
  rcases Nat.lt_or_ge hits w.first with hf | hf
  · -- The element comes before the window.
    have hd : w.first - hits = w.first - (hits + 1) + 1 := by omega
    have hn : ¬ w.first ≤ hits := by omega
    cases w.stop with
    | none => simp [hd, hn]
    | some n =>
      rcases Nat.lt_or_ge hits n with hs | hs
      · have ht : n - hits = n - (hits + 1) + 1 := by omega
        simp [hd, hn, ht]
      · have ht : n - hits = 0 ∧ n - (hits + 1) = 0 := by omega
        simp [hn, ht]
  · have hd : w.first - hits = 0 ∧ w.first - (hits + 1) = 0 := by omega
    cases w.stop with
    | none => simp [hd, hf]
    | some n =>
      rcases Nat.lt_or_ge hits n with hs | hs
      · have ht : n - hits = n - (hits + 1) + 1 := by omega
        simp [hd, hf, hs, ht]
      · have ht : n - hits = 0 ∧ n - (hits + 1) = 0 := by omega
        have hs' : ¬ hits < n := by omega
        simp [ht, hs']

theorem holds_of_stop {hits : Nat} (h : w.stop = some hits) : w.holds hits = false := by
  simp [holds, h]

theorem after?_nil (hits : Nat) : w.after? hits ([] : List α) = none := by
  unfold after?; split <;> simp

theorem after?_cons (hits : Nat) (x : α) (xs : List α) :
    w.after? hits (x :: xs) = if w.stop = some hits then some x else w.after? (hits + 1) xs := by
  unfold after?
  cases w.stop with
  | none => simp
  | some n =>
    rcases Nat.lt_trichotomy hits n with h | h | h
    · have hn : n - hits = n - (hits + 1) + 1 := by omega
      have hne : n ≠ hits := by omega
      simp [hn, hne, Nat.le_of_lt h, Nat.succ_le_of_lt h]
    · subst h; simp
    · have h₁ : ¬ hits ≤ n := by omega
      have h₂ : ¬ hits + 1 ≤ n := by omega
      have hne : n ≠ hits := by omega
      simp [h₁, h₂, hne]

end Window

/-! ## Walks -/

namespace Walk

variable (wanted : Record → Bool) (w : Window) (counting : Bool)

/-- What a walk collects are the matching records inside the window. -/
theorem collected_run (hits : Nat) (es : List Record) :
    (run wanted w counting hits es).collected wanted = w.cut hits (es.filter wanted) := by
  induction es generalizing hits with
  | nil => simp [run, collected, Window.cut_nil]
  | cons e es ih =>
    have ih₁ := ih (hits + 1)
    have ih₀ := ih hits
    simp only [collected] at ih₀ ih₁ ⊢
    rw [run]
    by_cases he : wanted e = true
    · rw [List.filter_cons_of_pos he, Window.cut_cons]
      by_cases hstop : w.stop = some hits
      · have hout := w.holds_of_stop hstop
        by_cases hc : counting = true
        · subst hc
          simp [he, hstop, hout, ih₁]
        · -- The walk ends, and the window has ended too.
          have hnil : w.cut (hits + 1) (es.filter wanted) = [] := by
            rw [Window.cut, hstop]; simp
          simp [he, hstop, hc, hout, hnil]
      · by_cases hin : w.holds hits = true <;> simp [he, hstop, hin, ih₁]
    · rw [List.filter_cons_of_neg he]
      simp [he, ih₀]

/-- The next page starts with the first matching record after the window. -/
theorem nextKey_run (hits : Nat) (es : List Record) :
    (run wanted w counting hits es).nextKey = (w.after? hits (es.filter wanted)).map (·.1) := by
  induction es generalizing hits with
  | nil => simp [run, Window.after?_nil]
  | cons e es ih =>
    rw [run]
    by_cases he : wanted e = true
    · rw [List.filter_cons_of_pos he, Window.after?_cons]
      by_cases hstop : w.stop = some hits
      · by_cases hc : counting = true <;> simp [he, hstop, hc]
      · simp [he, hstop, ih]
    · rw [List.filter_cons_of_neg he]
      simp [he, ih]

/-- A walk that counts everything counts every match. -/
theorem hits_run (hits : Nat) (es : List Record) :
    (run wanted w true hits es).hits = hits + (es.filter wanted).length := by
  induction es generalizing hits with
  | nil => simp [run]
  | cons e es ih =>
    rw [run]
    by_cases he : wanted e = true
    · rw [List.filter_cons_of_pos he]
      by_cases hstop : w.stop = some hits <;> simp [he, hstop, ih] <;> omega
    · rw [List.filter_cons_of_neg he]
      simp [he, ih]

/-- A walk looks at records one by one and leaves none out. It looks at all of them if it counts everything or
meets no start of a next page; otherwise that start is the last it looks at. -/
theorem visited_run (hits : Nat) (es : List Record) :
    let walk := run wanted w counting hits es
    walk.visited.map (·.1) <+: es ∧
      (counting = true ∨ walk.nextKey = none → walk.visited.map (·.1) = es) ∧
      (counting = false → ∀ k, walk.nextKey = some k → walk.visited.getLast?.map (·.1.1) = some k) := by
  have hlast : ∀ (x : Record × Bool) (xs : List (Record × Bool)) k,
      xs.getLast?.map (·.1.1) = some k → (x :: xs).getLast?.map (·.1.1) = some k := fun x xs k h => by
    cases xs with
    | nil => cases h
    | cons y ys => rwa [List.getLast?_cons_cons]
  induction es generalizing hits with
  | nil => simp [run]
  | cons e es ih =>
    obtain ⟨hp₁, ha₁, hl₁⟩ := ih (hits + 1)
    obtain ⟨hp₀, ha₀, hl₀⟩ := ih hits
    rw [run]
    by_cases he : wanted e = true
    · by_cases hstop : w.stop = some hits
      · by_cases hc : counting = true
        · subst hc
          simpa [he, hstop] using ⟨hp₁, ha₁ (.inl rfl)⟩
        · simp [he, hstop, hc]
      · simp only [he, hstop, if_true, if_false, List.map_cons, List.prefix_cons_inj]
        exact ⟨hp₁, fun h => by rw [ha₁ h], fun hc k hk => hlast _ _ k (hl₁ hc k hk)⟩
    · simp only [he, Bool.false_eq_true, if_false, List.map_cons, List.prefix_cons_inj]
      exact ⟨hp₀, fun h => by simpa using ha₀ h, fun hc k hk => hlast _ _ k (hl₀ hc k hk)⟩

end Walk

/-! ## Requests -/

namespace PageRequest

/-- Whether a page may hold a record: it does not start after it. -/
def admits (p : PageRequest) (e : Record) : Bool :=
  match p.key with
  | none => true
  | some k => if p.reverse then decide (e.1 ≤ k) else decide (k ≤ e.1)

/-- Of the records of a view those that a page may hold, in its order. -/
def candidates (p : PageRequest) (es : List Record) : List Record :=
  Store.ordered p.reverse (es.filter p.admits)

theorem pairwise_candidates (p : PageRequest) {es : List Record} (h : Ascending es) :
    (p.candidates es).Pairwise fun a b => Bytes.Before p.reverse a.1 b.1 :=
  pairwise_ordered (h.filter _)

theorem mem_candidates {p : PageRequest} {es : List Record} {e : Record} :
    e ∈ p.candidates es ↔ e ∈ es ∧ p.admits e = true := by
  unfold candidates Store.ordered
  split <;> simp

/-- The bounds of a request let through what a page may hold. -/
theorem inRange_bounds (p : PageRequest) (e : Record) : Records.inRange p.bounds.1 p.bounds.2 e.1 = p.admits e := by
  unfold bounds admits
  cases p.key with
  | none => rfl
  | some k =>
    rw [Bool.eq_iff_iff]
    cases p.reverse <;> simp [Records.inRange, Bytes.lt_append_zero_iff]

end PageRequest

/-- What a request gets from records in the order of the page. -/
structure IsPage (p : PageRequest) (wanted : Record → Bool) (es : List Record) (walk : Walk)
    (page : PageResponse) : Prop where
  /-- The page is a segment of the matching records. -/
  collected : walk.collected wanted =
    if p.limit = 0 then (es.filter wanted).drop p.offset else ((es.filter wanted).drop p.offset).take p.limit
  /-- The next page starts with the match after it. -/
  next : page.nextKey = if p.limit = 0 then none else (es.filter wanted)[p.offset + p.limit]?.map (·.1)
  total : page.total = if p.countTotal = true ∧ p.key = none then some ↑(es.filter wanted).length else none
  /-- No record is looked at twice, and none out of order. -/
  inOrder : walk.visited.Pairwise fun a b => Bytes.Before p.reverse a.1.1 b.1.1
  /-- No record is left out before the last that is looked at. -/
  consecutive : walk.visited.map (·.1) <+: es
  exhaustive : p.counting = true ∨ page.nextKey = none → walk.visited.map (·.1) = es
  /-- Unless all matches are counted, nothing is looked at after the start of the next page. -/
  stops : p.counting = false → ∀ k, page.nextKey = some k → walk.visited.getLast?.map (·.1.1) = some k

theorem isPage_run (p : PageRequest) (wanted : Record → Bool) {es : List Record}
    (hes : es.Pairwise fun a b => Bytes.Before p.reverse a.1 b.1) :
    let walk := Walk.run wanted (Window.ofRequest p) p.counting 0 es
    IsPage p wanted es walk
      { nextKey := walk.nextKey, total := if p.counting then some ↑walk.hits else none } := by
  intro walk
  obtain ⟨hconsec, hall, hstop⟩ := Walk.visited_run wanted (Window.ofRequest p) p.counting 0 es
  refine ⟨?_, ?_, ?_, ?_, hconsec, hall, hstop⟩
  · rw [Walk.collected_run, Window.cut, Window.ofRequest]
    by_cases hl : p.limit = 0
    · simp [hl]
    · simp [hl, List.drop_take]
  · rw [Walk.nextKey_run, Window.after?, Window.ofRequest]
    by_cases hl : p.limit = 0 <;> simp [hl]
  · by_cases hc : p.counting = true
    · have hk : p.countTotal = true ∧ p.key = none := by simpa [PageRequest.counting] using hc
      have hh : walk.hits = (es.filter wanted).length := by
        have := Walk.hits_run wanted (Window.ofRequest p) 0 es
        rw [Nat.zero_add, ← hc] at this
        exact this
      rw [if_pos hc, if_pos hk, hh]
    · have hk : ¬(p.countTotal = true ∧ p.key = none) := by simpa [PageRequest.counting] using hc
      rw [if_neg hc, if_neg hk]
  · have hpair := hes.sublist hconsec.sublist
    rwa [List.pairwise_map] at hpair

theorem IsPage.mem_of_collected {p : PageRequest} {wanted : Record → Bool} {es : List Record} {walk : Walk}
    {page : PageResponse} (h : IsPage p wanted es walk page) {e : Record} (he : e ∈ walk.collected wanted) : e ∈ es := by
  rw [h.collected] at he
  split at he
  · exact (List.mem_filter.1 (List.mem_of_mem_drop he)).1
  · exact (List.mem_filter.1 (List.mem_of_mem_drop (List.mem_of_mem_take he))).1

namespace Registry

open ExemptZones.Action

theorem run_paginate (v : View) {request : Option PageRequest} {p : PageRequest} (hp : request.getD {} = p)
    (wanted : Record → Bool) {s : Session} (hs : s.store.link = .live) :
    (paginate v request wanted).run s =
      if p.key.isSome ∧ p.offset > 0 then (.error (.registry .keyAndOffset), s)
      else
        let walk := Walk.run wanted (Window.ofRequest p) p.counting 0 (p.candidates (v.contents s.records))
        (.ok (walk, { nextKey := walk.nextKey, total := if p.counting then some ↑walk.hits else none }), s) := by
  have hscan : (v.scan p.bounds.1 p.bounds.2 p.reverse).run s = (.ok (p.candidates (v.contents s.records)), s) := by
    rw [v.run_scan_range hs]
    simp only [p.inRange_bounds]
    rfl
  unfold paginate
  by_cases h : p.key.isSome ∧ p.offset > 0
  · simp [hp, h]
  · simp [hp, h, hscan]

/-- A request that is not refused gets a page. -/
theorem run_paginate_ok (v : View) {request : Option PageRequest} {p : PageRequest} (hp : request.getD {} = p)
    (wanted : Record → Bool) {s : Session} (hs : s.store.link = .live) (hr : ¬(p.key.isSome ∧ p.offset > 0)) :
    ∃ walk page, (paginate v request wanted).run s = (.ok (walk, page), s) ∧
      IsPage p wanted (p.candidates (v.contents s.records)) walk page :=
  ⟨_, _, (run_paginate v hp wanted hs).trans (if_neg hr),
    isPage_run p wanted (p.pairwise_candidates (v.ascending_contents s.records))⟩

/-- A listing that reads something off each record of a page. -/
theorem run_read {α : Type} {v : View} {wanted : Record → Bool} {read : Record → Action α} {f : Record → α}
    {s : Session} (hs : s.store.link = .live)
    (hread : ∀ e ∈ v.contents s.records, (read e).run s = (.ok (f e), s))
    {request : Option PageRequest} {p : PageRequest} (hp : request.getD {} = p)
    (hr : ¬(p.key.isSome ∧ p.offset > 0)) :
    ∃ walk page, IsPage p wanted (p.candidates (v.contents s.records)) walk page ∧
      (do let (walk, page) ← paginate v request wanted
          return (← (walk.collected wanted).mapM read, page)).run s =
        (.ok ((walk.collected wanted).map f, page), s) := by
  obtain ⟨walk, page, hrun, hpage⟩ := run_paginate_ok v hp wanted hs hr
  have hall : ((walk.collected wanted).mapM read).run s = (.ok ((walk.collected wanted).map f), s) :=
    run_mapM fun e he => hread e (PageRequest.mem_candidates.1 (hpage.mem_of_collected he)).1
  exact ⟨walk, page, hpage, by simp only [run_bind, hrun, hall, run_pure]⟩

/-- **What a page holds.** A request with both a key and an offset is refused. To any other the answer is the
segment of the matching records that it asks for, in its order and from its key on; where the next page starts;
and how many records match, if that was asked for and there is no key. -/
theorem page_exact (v : View) (request : Option PageRequest) (wanted : Record → Bool) (s : Session)
    (hs : s.store.link = .live) :
    let p := request.getD {}
    (p.key ≠ none ∧ 0 < p.offset →
      (paginate v request wanted).run s = (.error (.registry .keyAndOffset), s)) ∧
    (¬(p.key ≠ none ∧ 0 < p.offset) →
      ∃ walk page, (paginate v request wanted).run s = (.ok (walk, page), s) ∧
        IsPage p wanted (p.candidates (v.contents s.records)) walk page) := by
  intro p
  have hk : (p.key.isSome = true ∧ p.offset > 0) ↔ (p.key ≠ none ∧ 0 < p.offset) := by
    rw [Option.isSome_iff_ne_none]
  rw [run_paginate v rfl wanted hs]
  refine ⟨fun h => if_pos (hk.2 h), fun h => ⟨_, _, if_neg fun h' => h (hk.1 h'), ?_⟩⟩
  exact isPage_run p wanted (p.pairwise_candidates (v.ascending_contents s.records))

/-- Downwards from a key that is in the view, past a record that does not match. What matches is not counted
since the request has a key. -/
theorem page_exact_downwards :
    let v : View := ⟨[5]⟩
    let r := (((Records.empty.insert [5, 1] [7]).insert [5, 2] [8]).insert [5, 3] [7]).insert [5] [7]
    let p : PageRequest := { key := some [3], limit := 2, countTotal := true, reverse := true }
    let wanted : Record → Bool := fun e => e.2 = [7]
    let s : Session := ⟨.ofRecords r, []⟩
    ∃ walk, (paginate v (some p) wanted).run s = (.ok (walk, { nextKey := some [], total := none }), s) ∧
      walk.collected wanted = [([3], [7]), ([1], [7])] := by
  intro v r p wanted s
  obtain ⟨walk, page, hrun, hp⟩ := (page_exact v (some p) wanted s rfl).2 (by decide)
  have hnext : page.nextKey = some [] := hp.next.trans (by decide)
  have htotal : page.total = none := hp.total.trans (by decide)
  obtain ⟨next, total⟩ := page
  subst hnext htotal
  exact ⟨walk, hrun, hp.collected.trans (by decide)⟩

end Registry

end ExemptZones
