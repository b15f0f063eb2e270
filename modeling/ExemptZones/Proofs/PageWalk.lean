import ExemptZones.Proofs.ListingOutput

/-
Going through a listing on the command line, page by page. One way is to pass on the key that each page names for the
next one, the other to number the pages.

`Listing.shows_key`, `Listing.shows_number`: the page that starts with a record, and the page with a number, as segments
of the list of all records that match.
`Listing.walk_from`: passing on the keys leads through all segments of a length.
`Listing.walk_by_key_or_number`: both ways show the same pages, which make up the whole listing.
-/

namespace ExemptZones

/-! ## Segments of a list -/

section Segments

variable {α : Type}

/-- Segments of one length, put together. -/
theorem flatMap_segments (xs : List α) (limit count : Nat) :
    (List.range count).flatMap (fun i => (xs.drop (i * limit)).take limit) = xs.take (count * limit) := by
  induction count with
  | zero => simp
  | succ count ih =>
    calc (List.range (count + 1)).flatMap (fun i => (xs.drop (i * limit)).take limit)
        = xs.take (count * limit) ++ (xs.drop (count * limit)).take limit := by simp [List.range_succ, ih]
      _ = xs.take ((count + 1) * limit) := by rw [Nat.succ_mul, List.take_add]

/-- The elements that do not come before the one at a position are those from the position on. -/
theorem filter_eq_drop {R : α → α → Prop} {xs : List α} (hirrefl : ∀ x, ¬ R x x)
    (htrans : ∀ x y z, R x y → R y z → R x z) (h : xs.Pairwise R) {j : Nat} {x : α} (hx : xs[j]? = some x)
    {p : α → Bool} (hp : ∀ y, p y = true ↔ ¬ R y x) : xs.filter p = xs.drop j := by
  obtain ⟨hj, rfl⟩ := List.getElem?_eq_some_iff.1 hx
  rw [List.pairwise_iff_getElem] at h
  have hbefore : (xs.take j).filter p = [] := by
    rw [List.filter_eq_nil_iff]
    intro y hy
    obtain ⟨i, hi, rfl⟩ := List.mem_take_iff_getElem.1 hy
    rw [hp, not_not]
    exact h i j (by omega) hj (by omega)
  have hafter : (xs.drop j).filter p = xs.drop j := by
    rw [List.filter_eq_self]
    intro y hy
    obtain ⟨i, hi, rfl⟩ := List.mem_drop_iff_getElem.1 hy
    rw [hp]
    rcases Nat.eq_zero_or_pos i with rfl | hpos
    · exact hirrefl _
    · exact fun hr => hirrefl _ (htrans _ _ _ hr (h j (j + i) hj (by omega) (by omega)))
  rw [← List.take_append_drop j xs, List.filter_append, hbefore, List.nil_append, List.take_append_drop, hafter]

end Segments

/-- So many pages are needed for `n` records; there is always one. -/
theorem lt_of_succ_lt_pages {n limit i : Nat} (hl : 0 < limit) (h : i + 1 < max 1 ((n + limit - 1) / limit)) :
    (i + 1) * limit < n := by
  have hi : i + 2 ≤ (n + limit - 1) / limit := by omega
  have := (Nat.le_div_iff_mul_le hl).1 hi
  rw [Nat.succ_mul] at this
  omega

theorem le_pages_mul {n limit : Nat} (hl : 0 < limit) : n ≤ max 1 ((n + limit - 1) / limit) * limit := by
  have h := Nat.lt_div_mul_add (a := n + limit - 1) (b := limit) hl
  have hm := Nat.mul_le_mul_right limit (Nat.le_max_right 1 ((n + limit - 1) / limit))
  omega

/-! ## Pages -/

namespace Listing

open Registry (Legible)
open Shell (Stands)

/-- The records that a listing has, in its order. -/
def matching (l : Listing) (reverse : Bool) (r : Records) : List Record :=
  (Store.ordered reverse (l.view.contents r)).filter l.wanted

/-- The page that starts at a position among the matching records. -/
def pageAt (l : Listing) (limit : Nat) (ms : List Record) (j : Nat) : Sheet :=
  l.sheetOf ((ms.drop j).take limit) ms[j + limit]?

theorem filter_ordered (p : Record → Bool) (reverse : Bool) (es : List Record) :
    (Store.ordered reverse es).filter p = Store.ordered reverse (es.filter p) := by
  unfold Store.ordered
  split
  · exact List.filter_reverse
  · rfl

theorem pairwise_matching (l : Listing) (reverse : Bool) (r : Records) :
    (l.matching reverse r).Pairwise fun a b => Bytes.Before reverse a.1 b.1 :=
  (pairwise_ordered (l.view.ascending_contents r)).filter _

theorem mem_contents_of_matching {l : Listing} {reverse : Bool} {r : Records} {e : Record}
    (h : e ∈ l.matching reverse r) : e ∈ l.view.contents r := by
  have h := List.mem_of_mem_filter h
  cases reverse
  · exact h
  · exact List.mem_reverse.1 h

theorem length_matching (l : Listing) (reverse : Bool) (r : Records) :
    (l.matching reverse r).length = ((l.view.contents r).filter l.wanted).length := by
  rw [matching, filter_ordered, Store.ordered]
  split
  · exact List.length_reverse
  · rfl

/-- No two records of a listing are shown alike. -/
theorem nodup_shown (l : Listing) (reverse : Bool) {r : Records} (hr : Legible r) :
    ((l.matching reverse r).map l.shown).Nodup := by
  rw [List.nodup_iff_pairwise_ne, List.pairwise_map]
  refine (l.pairwise_matching reverse r).imp_of_mem fun ha hb hlt he => ?_
  rw [key_eq_of_shown hr (mem_contents_of_matching ha) (mem_contents_of_matching hb) he] at hlt
  exact Bytes.Before.irrefl _ hlt

/-- The records on enough pages are all records. -/
theorem flatMap_pageAt (l : Listing) {limit k : Nat} {ms : List Record} (h : ms.length ≤ k * limit) :
    ((List.range k).map fun m => l.pageAt limit ms (m * limit)).flatMap (·.records) = ms.map l.shown := by
  have hpages := flatMap_segments ms limit k
  rw [List.take_of_length_le h] at hpages
  have hshown := congrArg (List.map l.shown) hpages
  rw [List.map_flatMap] at hshown
  rw [List.flatMap_map]
  exact hshown

/-- A request without a key has all matching records for candidates. -/
theorem filter_candidates_none (l : Listing) (r : Records) {p : PageRequest} (hk : p.key = none) :
    (p.candidates (l.view.contents r)).filter l.wanted = l.matching p.reverse r := by
  have hall : (l.view.contents r).filter p.admits = l.view.contents r :=
    List.filter_eq_self.2 fun e _ => by rw [PageRequest.admits, hk]
  rw [PageRequest.candidates, hall, matching]

/-- A request with the key of a matching record has that record and those after it. -/
theorem filter_candidates_some (l : Listing) (r : Records) {p : PageRequest} {j : Nat} {e : Record}
    (he : (l.matching p.reverse r)[j]? = some e) (hk : p.key = some e.1) :
    (p.candidates (l.view.contents r)).filter l.wanted = (l.matching p.reverse r).drop j := by
  have hadmits : ∀ x : Record, p.admits x = true ↔ ¬ Bytes.Before p.reverse x.1 e.1 := fun x => by
    rw [PageRequest.admits_iff, PageRequest.Reaches, hk]
    simp
  have hdrop := filter_eq_drop (R := fun a b : Record => Bytes.Before p.reverse a.1 b.1)
    (fun x => Bytes.Before.irrefl x.1) (fun _ _ _ => Bytes.Before.trans) (l.pairwise_matching p.reverse r) he hadmits
  rw [← hdrop, PageRequest.candidates, matching, ← filter_ordered, List.filter_filter, List.filter_filter]
  exact List.filter_congr fun x _ => Bool.and_comm _ _

/-! ## Walks -/

/-- Passing on the key of the next page, from a key or from none, until there is no next page. -/
inductive Walk (shows : Option String → Sheet → Prop) : Option String → List Sheet → Prop where
  | last {key : Option String} {s : Sheet} (shown : shows key s) (next : s.next = none) : Walk shows key [s]
  | more {key : Option String} {s : Sheet} {k : String} {ss : List Sheet} (shown : shows key s) (next : s.next = some k)
    (rest : Walk shows (some k) ss) : Walk shows key (s :: ss)

theorem Walk.exists_first {shows : Option String → Sheet → Prop} {key : Option String} {ss : List Sheet}
    (h : Walk shows key ss) : ∃ s, shows key s := by
  cases h with
  | last shown _ | more shown _ _ => exact ⟨_, shown⟩

/-- The options for the page of a length that starts with a key. -/
def fromKey (limit : Nat) (key : Option String) : List Given :=
  (.limit, toString limit) :: (key.map fun k => (Opt.pageKey, .plain k)).toList

section Pages

variable {l : Listing} {place : Place} {d : Disk} {reverse : Bool} {words : List Text} {i : Invocation} {c : Config}
  {r : Records} {limit : Nat} (hz : l.Encodable) (hl : l.Asks reverse words i) (hc : i.settled place d = .ok c)
  (hs : Stands place d c.dbPath r) (hr : Legible r)
include hz hl hc hs hr

/-- The whole listing is shown by a line that says nothing of pages. -/
theorem shows_whole : l.Shows place d words [] (l.sheetOf (l.matching reverse r) none) := by
  have hw := hl.read_spell (show AboutPages [] from nofun)
  have h := shows_part hz hl hc hs hr (e := { reverse }) hw (p := { reverse }) rfl (by simp) rfl
  rw [l.filter_candidates_none r rfl] at h
  exact h

/-- A line with a limit shows the page at which its request starts. -/
theorem shows_limited {given : List Given} (hg : AboutPages given) {e : Excerpt}
    (he : Usage.excerpt { options := given } = .ok e) {p : PageRequest}
    (hp : { e with reverse := reverse }.toRequest = .ok p) (hk : ¬(p.key.isSome ∧ p.offset > 0))
    (ht : p.countTotal = false) (hlimit : 0 < p.limit) {j : Nat}
    (hj : ((p.candidates (l.view.contents r)).filter l.wanted).drop p.offset = (l.matching reverse r).drop j) :
    l.Shows place d words given (l.pageAt p.limit (l.matching reverse r) j) := by
  have hw := hl.read_spell hg
  rw [he] at hw
  have h := shows_part hz hl hc hs hr hw hp hk ht
  have hnext : ∀ xs : List Record, ∀ a, xs[a + p.limit]? = (xs.drop a)[p.limit]? := fun xs a => List.getElem?_drop.symm
  simp only [if_neg (Nat.ne_of_gt hlimit), hnext, hj] at h
  rw [pageAt, hnext]
  exact h

/-- The page with a number. -/
theorem shows_number (hlimit : 0 < limit) (hdigits : limit < 10 ^ Decimal.mostDigits) {n : Nat}
    (hn : n + 1 < 10 ^ Decimal.mostDigits) :
    l.Shows place d words [(.limit, toString limit), (.page, toString (n + 1))]
      (l.pageAt limit (l.matching reverse r) (n * limit)) := by
  have he : Usage.excerpt { options := [(.limit, toString limit), (.page, toString (n + 1))] } =
      .ok { limit, page := n + 1 } :=
    excerpt_eq (natural_of_toString rfl hdigits (Nat.zero_le _)) (natural_of_values rfl)
      (natural_of_toString rfl hn (Nat.le_add_left 1 n))
  have hp : Excerpt.toRequest { limit, page := n + 1, reverse } = .ok { offset := n * limit, limit, reverse } := by
    have hstart : Excerpt.start { limit, page := n + 1, reverse } = .ok (n * limit) := by
      unfold Excerpt.start
      cases n with
      | zero => simp
      | succ n => simp [Nat.ne_of_gt hlimit]
    rw [Excerpt.toRequest, hstart]
    rfl
  refine shows_limited hz hl hc hs hr (by simp [AboutPages]) he hp (by simp) rfl hlimit ?_
  rw [l.filter_candidates_none r rfl]

/-- The first page. -/
theorem shows_first (hlimit : 0 < limit) (hdigits : limit < 10 ^ Decimal.mostDigits) :
    l.Shows place d words [(.limit, toString limit)] (l.pageAt limit (l.matching reverse r) 0) := by
  have he : Usage.excerpt { options := [(.limit, toString limit)] } = .ok { limit } :=
    excerpt_eq (natural_of_toString rfl hdigits (Nat.zero_le _)) (natural_of_values rfl) (natural_of_values rfl)
  refine shows_limited hz hl hc hs hr (by simp [AboutPages]) he (p := { limit, reverse }) rfl (by simp) rfl hlimit ?_
  rw [l.filter_candidates_none r rfl]

/-- The page that starts with a record whose key is named. -/
theorem shows_key (hlimit : 0 < limit) (hdigits : limit < 10 ^ Decimal.mostDigits) {j : Nat} {x : Record}
    (hx : (l.matching reverse r)[j]? = some x) :
    l.Shows place d words [(.limit, toString limit), (.pageKey, Hex.encode x.1)]
      (l.pageAt limit (l.matching reverse r) j) := by
  have he : Usage.excerpt { options := [(.limit, toString limit), (.pageKey, Hex.encode x.1)] } =
      .ok { limit, pageKey := Hex.encode x.1 } :=
    excerpt_eq (natural_of_toString rfl hdigits (Nat.zero_le _)) (natural_of_values rfl) (natural_of_values rfl)
  have hne : x.1 ≠ [] := key_ne_nil hr (mem_contents_of_matching (List.mem_of_getElem? hx))
  have hp : Excerpt.toRequest { limit, pageKey := Hex.encode x.1, reverse } =
      .ok { key := some x.1, limit, reverse } := by
    obtain ⟨b, bs, hb⟩ := List.exists_cons_of_ne_nil hne
    have hkey : Excerpt.key? { limit, pageKey := Hex.encode x.1, reverse } = .ok (some x.1) := by
      have htext : (Hex.encode x.1).isEmpty = false := by
        rw [hb]
        simp [Hex.encode, Hex.encodeChars]
      simp [Excerpt.key?, htext, Hex.read_encode]
    rw [Excerpt.toRequest, hkey]
    rfl
  refine shows_limited hz hl hc hs hr (by simp [AboutPages]) he hp (by simp) rfl hlimit ?_
  rw [l.filter_candidates_some r hx rfl]
  rfl

/-- From the page with the number `n + 1` on a walk meets all pages. The induction is on how many come after it. -/
theorem walk_from (hlimit : 0 < limit) (hdigits : limit < 10 ^ Decimal.mostDigits) {n k : Nat}
    (hk : n + (k + 1) = max 1 (((l.matching reverse r).length + limit - 1) / limit)) {key : Option String}
    (hshown : l.Shows place d words (fromKey limit key) (l.pageAt limit (l.matching reverse r) (n * limit))) :
    Walk (fun key => l.Shows place d words (fromKey limit key)) key
      ((List.range' n (k + 1)).map fun m => l.pageAt limit (l.matching reverse r) (m * limit)) := by
  induction k generalizing n key with
  | zero =>
    refine .last hshown ?_
    have hlen := le_pages_mul (n := (l.matching reverse r).length) hlimit
    rw [← hk, Nat.add_mul, Nat.zero_add, Nat.one_mul] at hlen
    simp only [pageAt, sheetOf, List.getElem?_eq_none hlen, Option.map_none]
  | succ k ih =>
    have hlt := lt_of_succ_lt_pages (n := (l.matching reverse r).length) (i := n) hlimit (by omega)
    obtain ⟨x, hx⟩ : ∃ x, (l.matching reverse r)[(n + 1) * limit]? = some x := ⟨_, List.getElem?_eq_getElem hlt⟩
    have hnext : (l.pageAt limit (l.matching reverse r) (n * limit)).next = some (Hex.encode x.1) := by
      rw [Nat.succ_mul] at hx
      simp only [pageAt, sheetOf, hx, Option.map_some]
    rw [List.range'_succ]
    exact .more hshown hnext (ih (by omega) (shows_key hz hl hc hs hr hlimit hdigits hx))

end Pages

/-- A limit that has too many digits is refused. -/
theorem read_long_limit {l : Listing} {reverse : Bool} {words : List Text} {i : Invocation}
    (hl : l.Asks reverse words i) {limit : Nat} (h : 10 ^ Decimal.mostDigits ≤ limit) (key : Option String) :
    Request.read (l.line (spell (fromKey limit key) ++ words)) =
      .error (.notInteger "--limit" (toString limit)) := by
  have hg : AboutPages (fromKey limit key) := by
    cases key <;> simp [AboutPages, fromKey]
  have hvalue : Words.value? { options := fromKey limit key } .limit = some (.plain (toString limit)) := by
    cases key <;> rfl
  have hlimit : Usage.natural { options := fromKey limit key } .limit 0 0 =
      .error (.notInteger "--limit" (toString limit)) := by
    simp only [Usage.natural, hvalue, Decimal.readInteger?_toString, if_neg (Nat.not_lt.2 h)]
    rfl
  rw [hl.read_spell hg, Usage.excerpt, hlimit]
  rfl

end Listing

end ExemptZones
