import ExemptZones.Proofs.Nesting
import ExemptZones.Proofs.Paging
import ExemptZones.Proofs.Snapshot

/-
Listings read page by page while the store changes. Each page after the first starts at the key at which the
one before it stopped, whether or not a record still stands there. What is there all along comes back once.

`Round.Answers`: what one page owes to the request, said of keys alone.
`Chain`: pages each of which starts where the one before it stopped. What was reached so far is an interval
of keys, which carries every statement about the whole.
`Registry.browsing_covers`: the walk over any view, over the zones, and over the members of a zone.
-/

namespace ExemptZones

open ExemptZones.Action

/-- A page as it was answered: what the store held at that moment, what came back, and where the next page
starts. -/
structure Round (α : Type) where
  held : Records
  items : List α
  next : Option Bytes

section Browse

variable {α ι : Type}

def askPage (list : PageRequest → Action (List α × PageResponse)) (p : PageRequest) : Action (Round α) := do
  let held := (← Action.store).working
  let (items, page) ← list p
  return ⟨held, items, page.nextKey⟩

/-- Pages one after the other, each from the key at which the one before it stopped, until there is no such key.
A change is made before each page but the first, and may fail. -/
def browse (list : PageRequest → Action (List α × PageResponse)) (change : ι → Action Unit) :
    PageRequest → List ι → Action (List (Round α))
  | p, [] => do return [← askPage list p]
  | p, c :: cs => do
    let round ← askPage list p
    match round.next with
    | none => return [round]
    | some k => do
      tryCatch (change c) fun _ => pure ()
      return round :: (← browse list change { p with key := some k } cs)

end Browse

/-! ## Keys before and after -/

namespace Bytes

variable {reverse : Bool} {a b c : Bytes}

theorem Before.total (h : ¬ Before reverse b a) : a = b ∨ Before reverse a b := by
  cases reverse
  · exact (Std.lt_trichotomy a b).elim .inr fun h' => h'.elim .inl fun h' => absurd h' h
  · exact (Std.lt_trichotomy b a).elim .inr fun h' => h'.elim (fun e => .inl e.symm) fun h' => absurd h' h

/-- What is not before `b` comes after everything that is. -/
theorem Before.of_not (h : Before reverse a b) (h' : ¬ Before reverse c b) : Before reverse a c := by
  rcases Before.total h' with rfl | hb
  · exact h
  · exact h.trans hb

end Bytes

/-- Whether a page starts at a key or before it. -/
def PageRequest.Reaches (p : PageRequest) (k : Bytes) : Prop :=
  ∀ c, p.key = some c → ¬ Bytes.Before p.reverse k c

theorem PageRequest.admits_iff {p : PageRequest} {e : Record} : p.admits e = true ↔ p.Reaches e.1 := by
  unfold admits Reaches Bytes.Before
  cases p.key with
  | none => simp
  | some c => cases p.reverse <;> simp

/-! ## One page -/

/-- What a page owes to a request without an offset. `holds` says which items a listing of the records should
have, and `key` where they stand in it. -/
structure Round.Answers {α : Type} (key : α → Bytes) (holds : Records → α → Prop) (p : PageRequest)
    (r : Round α) : Prop where
  ordered : (r.items.map key).Pairwise (Bytes.Before p.reverse)
  held : ∀ x ∈ r.items, holds r.held x
  reached : ∀ x ∈ r.items, p.Reaches (key x)
  /-- Where the next page starts this one is full, and lies before it. -/
  full : ∀ k, r.next = some k →
    r.items.length = p.limit ∧ p.Reaches k ∧ ∀ x ∈ r.items, Bytes.Before p.reverse (key x) k
  /-- Nothing is left out up to where the next page starts. -/
  complete : ∀ x, holds r.held x → p.Reaches (key x) → (∀ k, r.next = some k → Bytes.Before p.reverse (key x) k) →
    x ∈ r.items

namespace Round.Answers

variable {p : PageRequest}

theorem of_isPage {wanted : Record → Bool} {es : List Record} (hes : Ascending es) {walk : Walk}
    {page : PageResponse} (h : IsPage p wanted (p.candidates es) walk page) (ho : p.offset = 0) (hl : 0 < p.limit)
    {holds : Records → Record → Prop} {held : Records} (hh : ∀ e, holds held e ↔ e ∈ es ∧ wanted e = true) :
    (Round.mk held (walk.collected wanted) page.nextKey).Answers (·.1) holds p := by
  have hne : p.limit ≠ 0 := Nat.ne_of_gt hl
  have hms : ((p.candidates es).filter wanted).Pairwise fun a b => Bytes.Before p.reverse a.1 b.1 :=
    (p.pairwise_candidates hes).filter _
  have hmem : ∀ e, e ∈ (p.candidates es).filter wanted ↔ holds held e ∧ p.Reaches e.1 := fun e => by
    rw [List.mem_filter, PageRequest.mem_candidates, PageRequest.admits_iff, hh]
    exact and_right_comm
  have hitems := h.collected
  have hnext := h.next
  rw [if_neg hne, ho, List.drop_zero] at hitems
  rw [if_neg hne, ho, Nat.zero_add, ← List.head?_drop] at hnext
  generalize (p.candidates es).filter wanted = ms at hms hmem hitems hnext
  -- The matching records are those of the page and those after it, the first of which starts the next page.
  have hsplit : ms = walk.collected wanted ++ ms.drop p.limit := by rw [hitems, List.take_append_drop]
  rw [hsplit] at hms hmem
  obtain ⟨hpage, hrest, hcross⟩ := List.pairwise_append.1 hms
  simp only [List.mem_append] at hmem
  refine ⟨List.pairwise_map.2 hpage, fun e he => ((hmem e).1 (.inl he)).1, fun e he => ((hmem e).1 (.inl he)).2, ?_, ?_⟩
  · intro k hk
    rw [hnext, Option.map_eq_some_iff] at hk
    obtain ⟨e, he, rfl⟩ := hk
    have hin : e ∈ ms.drop p.limit := List.mem_of_head? he
    have hlen : p.limit < ms.length := by
      have := List.length_pos_of_mem hin
      rw [List.length_drop] at this
      omega
    exact ⟨by rw [hitems, List.length_take, Nat.min_eq_left (Nat.le_of_lt hlen)], ((hmem e).1 (.inr hin)).2,
      fun x hx => hcross x hx e hin⟩
  · intro e he hr hbefore
    rcases (hmem e).2 ⟨he, hr⟩ with hin | hin
    · exact hin
    · cases hd : ms.drop p.limit with
      | nil => rw [hd] at hin; exact absurd hin List.not_mem_nil
      | cons x xs =>
        rw [hd] at hin hrest
        have hlt := hbefore x.1 (by rw [hnext, hd]; rfl)
        rcases List.mem_cons.1 hin with rfl | hin
        · exact absurd hlt (Bytes.Before.irrefl _)
        · exact absurd (hlt.trans ((List.pairwise_cons.1 hrest).1 e hin)) (Bytes.Before.irrefl _)

/-- A listing that answers something read off each record. -/
theorem map {α β : Type} {key : α → Bytes} {key' : β → Bytes} {holds : Records → α → Prop}
    {holds' : Records → β → Prop} {r : Round α} (h : r.Answers key holds p) (f : α → β)
    (hf : ∀ x, holds r.held x → key' (f x) = key x ∧ holds' r.held (f x))
    (hback : ∀ y, holds' r.held y → ∃ x, holds r.held x ∧ f x = y) :
    (Round.mk r.held (r.items.map f) r.next).Answers key' holds' p := by
  have hkey : (r.items.map f).map key' = r.items.map key := by
    rw [List.map_map]
    exact List.map_congr_left fun x hx => (hf x (h.held x hx)).1
  refine ⟨hkey ▸ h.ordered, ?_, ?_, ?_, ?_⟩
  · exact List.forall_mem_map.2 fun x hx => (hf x (h.held x hx)).2
  · exact List.forall_mem_map.2 fun x hx => (hf x (h.held x hx)).1 ▸ h.reached x hx
  · intro k hk
    obtain ⟨hlen, hr, hb⟩ := h.full k hk
    exact ⟨by rw [List.length_map, hlen], hr,
      List.forall_mem_map.2 fun x hx => (hf x (h.held x hx)).1 ▸ hb x hx⟩
  · intro y hy hr hb
    obtain ⟨x, hx, rfl⟩ := hback y hy
    rw [(hf x hx).1] at hr hb
    exact List.mem_map_of_mem (h.complete x hx hr hb)

end Round.Answers

/-! ## Many pages -/

/-- Pages of which each starts where the one before it stopped. -/
inductive Chain {α : Type} (key : α → Bytes) (holds : Records → α → Prop) : PageRequest → List (Round α) → Prop where
  | last {p : PageRequest} {r : Round α} (answers : r.Answers key holds p) : Chain key holds p [r]
  | more {p : PageRequest} {r : Round α} {k : Bytes} {rs : List (Round α)} (answers : r.Answers key holds p)
      (next : r.next = some k) (rest : Chain key holds { p with key := some k } rs) : Chain key holds p (r :: rs)

/-- What is to be expected of pages read one after the other while the store changes. -/
structure Covers {α : Type} (key : α → Bytes) (holds : Records → α → Prop) (reverse : Bool) (limit : Nat)
    (rounds : List (Round α)) : Prop where
  /-- Keys come in order over all pages, so that none comes twice. -/
  ordered : ((rounds.flatMap (·.items)).map key).Pairwise (Bytes.Before reverse)
  full : ∀ r ∈ rounds, r.next ≠ none → r.items.length = limit
  held : ∀ r ∈ rounds, ∀ x ∈ r.items, holds r.held x
  /-- After the last page all that was there for every page has come back, once. -/
  complete : ∀ r, rounds.getLast? = some r → r.next = none →
    ∀ k, (∀ r ∈ rounds, ∃ x, holds r.held x ∧ key x = k) → ((rounds.flatMap (·.items)).map key).count k = 1

namespace Chain

variable {α : Type} {key : α → Bytes} {holds : Records → α → Prop} {p : PageRequest} {rs : List (Round α)}

theorem reached (h : Chain key holds p rs) : ∀ x ∈ rs.flatMap (·.items), p.Reaches (key x) := by
  induction h with
  | last answers => simpa using answers.reached
  | more answers next _ ih =>
    intro x hx
    rw [List.flatMap_cons, List.mem_append] at hx
    rcases hx with hx | hx
    · exact answers.reached x hx
    · obtain ⟨-, hr, -⟩ := answers.full _ next
      -- The next page starts no earlier than this one.
      exact fun c hc hlt => ih x hx _ rfl (hlt.of_not (hr c hc))

theorem ordered (h : Chain key holds p rs) :
    ((rs.flatMap (·.items)).map key).Pairwise (Bytes.Before p.reverse) := by
  induction h with
  | last answers => simpa using answers.ordered
  | more answers next rest ih =>
    rw [List.flatMap_cons, List.map_append, List.pairwise_append]
    refine ⟨answers.ordered, ih, ?_⟩
    rintro _ ha _ hb
    obtain ⟨x, hx, rfl⟩ := List.mem_map.1 ha
    obtain ⟨y, hy, rfl⟩ := List.mem_map.1 hb
    exact ((answers.full _ next).2.2 x hx).of_not (rest.reached y hy _ rfl)

theorem full (h : Chain key holds p rs) : ∀ r ∈ rs, r.next ≠ none → r.items.length = p.limit := by
  have hone : ∀ {p : PageRequest} {r : Round α}, r.Answers key holds p → r.next ≠ none →
      r.items.length = p.limit := fun answers hn => by
    obtain ⟨k, hk⟩ := Option.ne_none_iff_exists'.1 hn
    exact (answers.full k hk).1
  induction h with
  | last answers =>
    intro r hr
    obtain rfl := List.mem_singleton.1 hr
    exact hone answers
  | more answers _ _ ih => exact List.forall_mem_cons.2 ⟨hone answers, ih⟩

theorem held (h : Chain key holds p rs) : ∀ r ∈ rs, ∀ x ∈ r.items, holds r.held x := by
  induction h with
  | last answers =>
    intro r hr
    obtain rfl := List.mem_singleton.1 hr
    exact answers.held
  | more answers _ _ ih => exact List.forall_mem_cons.2 ⟨answers.held, ih⟩

/-- What is there all along and not before the first page is met. On each page it either lies before the start of
the next, and is found, or the next page still has it ahead. -/
theorem mem_of_held (h : Chain key holds p rs) {l : Round α} (hl : rs.getLast? = some l) (hn : l.next = none)
    {k : Bytes} (hk : p.Reaches k) (hall : ∀ r ∈ rs, ∃ x, holds r.held x ∧ key x = k) :
    k ∈ (rs.flatMap (·.items)).map key := by
  induction h with
  | @last p r answers =>
    obtain rfl : r = l := by simpa using hl
    obtain ⟨x, hx, rfl⟩ := hall r List.mem_cons_self
    have hin : x ∈ r.items := answers.complete x hx hk fun c hc => by rw [hn] at hc; cases hc
    simpa using ⟨x, hin, rfl⟩
  | @more p r k' rs answers next rest ih =>
    rw [List.flatMap_cons, List.map_append, List.mem_append]
    by_cases hb : Bytes.Before p.reverse k k'
    · obtain ⟨x, hx, rfl⟩ := hall _ List.mem_cons_self
      refine .inl (List.mem_map_of_mem (answers.complete x hx hk fun c hc => ?_))
      obtain rfl : k' = c := Option.some.inj (next.symm.trans hc)
      exact hb
    · have hl' : rs.getLast? = some l := by
        cases rs with
        | nil => cases rest
        | cons r' rs => rwa [List.getLast?_cons_cons] at hl
      refine .inr (ih hl' (fun c hc => ?_) fun r hr => hall r (List.mem_cons_of_mem _ hr))
      obtain rfl : k' = c := Option.some.inj hc
      exact hb

theorem covers (h : Chain key holds p rs) (hp : p.key = none) : Covers key holds p.reverse p.limit rs where
  ordered := h.ordered
  full := h.full
  held := h.held
  complete l hl hn k hall := by
    have hr : p.Reaches k := fun c hc => by rw [hp] at hc; cases hc
    have hnodup : ((rs.flatMap (·.items)).map key).Nodup := h.ordered.imp fun hlt => by
      rintro rfl
      exact Bytes.Before.irrefl _ hlt
    exact List.count_eq_one_of_mem hnodup (h.mem_of_held hl hn hr hall)

end Chain

/-- Pages that each answer their request, in sessions with a property that every change keeps, make a chain. None
of them fails. -/
theorem run_browse {α ι : Type} {list : PageRequest → Action (List α × PageResponse)} {change : ι → Action Unit}
    {key : α → Bytes} {holds : Records → α → Prop} {I : Session → Prop}
    (hlist : ∀ s p, I s → p.offset = 0 → 0 < p.limit → ∃ items page, (list p).run s = (.ok (items, page), s) ∧
      (Round.mk s.records items page.nextKey).Answers key holds p)
    (hchange : ∀ c s, I s → I ((change c).run s).2) (cs : List ι) {p : PageRequest} (ho : p.offset = 0)
    (hl : 0 < p.limit) {s : Session} (hs : I s) :
    ∃ rs t, (browse list change p cs).run s = (.ok rs, t) ∧ Chain key holds p rs := by
  induction cs generalizing p s with
  | nil =>
    obtain ⟨items, page, hrun, hr⟩ := hlist s p hs ho hl
    exact ⟨_, s, by simp [browse, askPage, hrun]; rfl, .last hr⟩
  | cons c cs ih =>
    obtain ⟨items, page, hrun, hr⟩ := hlist s p hs ho hl
    have hask : (askPage list p).run s = (.ok ⟨s.records, items, page.nextKey⟩, s) := by simp [askPage, hrun]; rfl
    cases hn : page.nextKey with
    | none =>
      rw [hn] at hask hr
      exact ⟨_, s, by simp [browse, hask], .last hr⟩
    | some k =>
      rw [hn] at hask hr
      obtain ⟨rs, t, ht, hc⟩ := ih (p := { p with key := some k }) ho hl (hchange c s hs)
      have htry : (tryCatch (change c) fun _ => pure ()).run s = (.ok (), ((change c).run s).2) := by
        rw [run_tryCatch]
        rcases (change c).run s with ⟨f | _, u⟩ <;> rfl
      exact ⟨_, t, by simp [browse, hask, htry, ht], .more hr rfl hc⟩

namespace Registry

/-! ## Listings -/

/-- The matching records of a view, page by page. -/
def listRecords (v : View) (wanted : Record → Bool) (p : PageRequest) : Action (List Record × PageResponse) := do
  let (walk, page) ← paginate v (some p) wanted
  return (walk.collected wanted, page)

/-- The record is there, in the view, and matches. -/
def IsMatch (v : View) (wanted : Record → Bool) (r : Records) (e : Record) : Prop :=
  e ∈ v.contents r ∧ wanted e = true

/-- The zone is there, with these flags. -/
def IsRegistered (r : Records) (z : Zone) : Prop :=
  r.get? (zoneKey z.name) = some z.encode

/-- The address is a member of the zone, or of any zone if the name is empty. -/
def IsMember (zone : String) (r : Records) (address : String) : Prop :=
  ∃ n, r.get? (memberKey address) = some (Utf8.encode n) ∧ (zone = "" ∨ n = zone)

theorem answers_paginate (v : View) (wanted : Record → Bool) {s : Session} (hs : s.store.link = .live)
    {p : PageRequest} (ho : p.offset = 0) (hl : 0 < p.limit) :
    ∃ walk page, (paginate v (some p) wanted).run s = (.ok (walk, page), s) ∧
      (Round.mk s.records (walk.collected wanted) page.nextKey).Answers (·.1) (IsMatch v wanted) p := by
  have hr : ¬(p.key.isSome ∧ p.offset > 0) := fun h => absurd h.2 (by omega)
  obtain ⟨walk, page, hrun, hp⟩ := run_paginate_ok v (show (some p).getD {} = p from rfl) wanted hs hr
  exact ⟨walk, page, hrun, .of_isPage (v.ascending_contents s.records) hp ho hl fun _ => Iff.rfl⟩

/-- A listing that reads something off each matching record. -/
theorem answers_read {α : Type} {v : View} {wanted : Record → Bool} {read : Record → Action α} {f : Record → α}
    {key : α → Bytes} {holds : Records → α → Prop} {s : Session} (hs : s.store.link = .live)
    (hread : ∀ e, IsMatch v wanted s.records e →
      (read e).run s = (.ok (f e), s) ∧ key (f e) = e.1 ∧ holds s.records (f e))
    (hback : ∀ y, holds s.records y → ∃ e, IsMatch v wanted s.records e ∧ f e = y)
    {p : PageRequest} (ho : p.offset = 0) (hl : 0 < p.limit) :
    ∃ ys page,
      (do let (walk, page) ← paginate v (some p) wanted
          return (← (walk.collected wanted).mapM read, page)).run s = (.ok (ys, page), s) ∧
        (Round.mk s.records ys page.nextKey).Answers key holds p := by
  obtain ⟨walk, page, hrun, ha⟩ := answers_paginate v wanted hs ho hl
  have hall : ((walk.collected wanted).mapM read).run s = (.ok ((walk.collected wanted).map f), s) :=
    run_mapM fun e he => (hread e (ha.held e he)).1
  exact ⟨_, page, by simp only [run_bind, hrun, hall, run_pure], ha.map f (fun e he => (hread e he).2) hback⟩

/-- The zone whose record it is. -/
def zoneOf (e : Record) : Zone :=
  (Zone.decode e.2).toOption.getD ⟨{}, ""⟩

/-- The address whose membership it is. -/
def addressOf (e : Record) : String :=
  (Utf8.decode? e.1).getD ""

section Sound

variable {hrp : String} {s : Session}

theorem answers_listZones (hs : s.store.link = .live) (h : Sound hrp s.records) {p : PageRequest} (ho : p.offset = 0)
    (hl : 0 < p.limit) :
    ∃ zs page, (listZones (some p)).run s = (.ok (zs, page), s) ∧
      (Round.mk s.records zs page.nextKey).Answers (fun z => Utf8.encode z.name) IsRegistered p := by
  have hzone : ∀ k (z : Zone), zoneOf (k, z.encode) = z := fun k z => by rw [zoneOf, z.decode_encode]; rfl
  refine answers_read (f := zoneOf) hs ?_ ?_ ho hl
  · rintro e ⟨he, -⟩
    obtain ⟨z, -, rfl⟩ := h.exists_zone he
    rw [hzone, decodeZone, z.decode_encode]
    exact ⟨rfl, rfl, View.mem_contents.1 he⟩
  · intro z hz
    exact ⟨(Utf8.encode z.name, z.encode), ⟨View.mem_contents.2 hz, rfl⟩, hzone _ z⟩

theorem answers_listAddresses (hs : s.store.link = .live) (h : Sound hrp s.records) (zone : String)
    {p : PageRequest} (ho : p.offset = 0) (hl : 0 < p.limit) :
    ∃ xs page, (listAddresses zone (some p)).run s = (.ok (xs, page), s) ∧
      (Round.mk s.records xs page.nextKey).Answers Utf8.encode (IsMember zone) p := by
  have haddress : ∀ (a : String) b, addressOf (Utf8.encode a, b) = a := fun a b => by
    rw [addressOf, Utf8.decode?_encode]; rfl
  have hwanted : ∀ n : String,
      (zone.isEmpty || decide (Utf8.encode n = Utf8.encode zone)) = true ↔ zone = "" ∨ n = zone := fun n => by
    have hinj : Utf8.encode n = Utf8.encode zone ↔ n = zone := ⟨Utf8.encode_injective, fun he => he ▸ rfl⟩
    simp [hinj]
  refine answers_read (f := addressOf) hs ?_ ?_ ho hl
  · rintro e ⟨he, hw⟩
    obtain ⟨m, -, rfl⟩ := h.exists_member he
    rw [haddress, decodeText, Utf8.decode?_encode]
    exact ⟨rfl, rfl, m.2, View.mem_contents.1 he, (hwanted m.2).1 hw⟩
  · rintro a ⟨n, hn, hz⟩
    exact ⟨(Utf8.encode a, Utf8.encode n), ⟨View.mem_contents.2 hn, (hwanted n).2 hz⟩, haddress a _⟩

end Sound

/-! ## Walks through a listing -/

theorem run_browse_records (v : View) (wanted : Record → Bool) (changes : List (Script Access)) {p : PageRequest}
    (ho : p.offset = 0) (hl : 0 < p.limit) {s : Session} (hs : s.Ready) :
    ∃ rounds t, (browse (listRecords v wanted) (Script.run Access.act) p changes).run s = (.ok rounds, t) ∧
      Chain (·.1) (IsMatch v wanted) p rounds := by
  have hup : s.Upholds fun _ => True := { hs with committed := trivial, working := trivial }
  refine run_browse (I := fun s => s.Upholds fun _ => True) (fun s p hs ho hl => ?_)
    (fun c s hs => (c.upholds (fun i _ => i.upholds) hs).2.1) changes ho hl hup
  obtain ⟨walk, page, hrun, ha⟩ := answers_paginate v wanted hs.live ho hl
  exact ⟨walk.collected wanted, page, by simp only [listRecords, run_bind, hrun, run_pure], ha⟩

section Sound

variable {cfg : Settings} {s : Session}

theorem upholds_sound (c : Script Change) (hs : s.Upholds (Sound cfg.addressPrefix)) :
    ((c.run (Change.act cfg)).run s).2.Upholds (Sound cfg.addressPrefix) :=
  (c.upholds (Change.upholds cfg) hs).2.1

theorem run_browse_zones (changes : List (Script Change)) {p : PageRequest} (ho : p.offset = 0) (hl : 0 < p.limit)
    (hs : s.Upholds (Sound cfg.addressPrefix)) :
    ∃ rounds t,
      (browse (fun p => listZones (some p)) (Script.run (Change.act cfg)) p changes).run s = (.ok rounds, t) ∧
      Chain (fun z => Utf8.encode z.name) IsRegistered p rounds :=
  run_browse (I := fun s => s.Upholds (Sound cfg.addressPrefix))
    (fun _ _ hs ho hl => answers_listZones hs.live hs.working ho hl) (fun c _ hs => upholds_sound c hs)
    changes ho hl hs

theorem run_browse_addresses (zone : String) (changes : List (Script Change)) {p : PageRequest} (ho : p.offset = 0)
    (hl : 0 < p.limit) (hs : s.Upholds (Sound cfg.addressPrefix)) :
    ∃ rounds t,
      (browse (fun p => listAddresses zone (some p)) (Script.run (Change.act cfg)) p changes).run s =
        (.ok rounds, t) ∧
      Chain Utf8.encode (IsMember zone) p rounds :=
  run_browse (I := fun s => s.Upholds (Sound cfg.addressPrefix))
    (fun _ _ hs ho hl => answers_listAddresses hs.live hs.working zone ho hl) (fun c _ hs => upholds_sound c hs)
    changes ho hl hs

end Sound

/-- **Pages cover what stays.** A listing without an offset is read page by page, upwards or downwards, and
between the pages the store changes in any way. No page fails; the keys of all pages together are in order; each
page but the last is full; and when there is no next page, whatever matched at each request has come back once.
This holds for any view with any records, and for the zones and the members of a registry that is changed
meanwhile. -/
theorem browsing_covers :
    (∀ (v : View) (wanted : Record → Bool) (p : PageRequest) (changes : List (Script Access)) (s : Session),
      s.Ready → p.key = none → p.offset = 0 → 0 < p.limit →
      ∃ rounds t, (browse (listRecords v wanted) (Script.run Access.act) p changes).run s = (.ok rounds, t) ∧
        Covers (·.1) (IsMatch v wanted) p.reverse p.limit rounds) ∧
    (∀ (cfg : Settings) (p : PageRequest) (changes : List (Script Change)) (s : Session),
      Reachable cfg s → p.key = none → p.offset = 0 → 0 < p.limit →
      ∃ rounds t,
        (browse (fun p => listZones (some p)) (Script.run (Change.act cfg)) p changes).run s = (.ok rounds, t) ∧
        Covers (fun z => Utf8.encode z.name) IsRegistered p.reverse p.limit rounds) ∧
    ∀ (cfg : Settings) (zone : String) (p : PageRequest) (changes : List (Script Change)) (s : Session),
      Reachable cfg s → p.key = none → p.offset = 0 → 0 < p.limit →
      ∃ rounds t,
        (browse (fun p => listAddresses zone (some p)) (Script.run (Change.act cfg)) p changes).run s =
          (.ok rounds, t) ∧
        Covers Utf8.encode (IsMember zone) p.reverse p.limit rounds := by
  refine ⟨fun v wanted p changes s hs hk ho hl => ?_, fun cfg p changes s hs hk ho hl => ?_,
    fun cfg zone p changes s hs hk ho hl => ?_⟩
  · obtain ⟨rounds, t, hrun, hc⟩ := run_browse_records v wanted changes ho hl hs
    exact ⟨rounds, t, hrun, hc.covers hk⟩
  · obtain ⟨rounds, t, hrun, hc⟩ := run_browse_zones changes ho hl hs.upholds
    exact ⟨rounds, t, hrun, hc.covers hk⟩
  · obtain ⟨rounds, t, hrun, hc⟩ := run_browse_addresses zone changes ho hl hs.upholds
    exact ⟨rounds, t, hrun, hc.covers hk⟩

/-- Zones one by one, downwards. The zone at which the second page should start is removed before it, and the
walk goes on below. -/
theorem browsing_covers_removal :
    let make : Change := .importState ⟨[⟨{}, "a"⟩, ⟨{}, "b"⟩, ⟨{}, "c"⟩], []⟩
    let s := ((make.act {}).run start).2
    let p : PageRequest := { limit := 1, reverse := true }
    ∃ rounds t, (browse (fun p => listZones (some p)) (Script.run (Change.act {})) p
        [.step (.edit (.removeZone "b")), .done]).run s = (.ok rounds, t) ∧
      rounds.map (fun r => (r.items.map (·.name), r.next)) =
        [(["c"], some (Utf8.encode "b")), (["a"], none)] ∧
      Covers (fun z => Utf8.encode z.name) IsRegistered true 1 rounds := by
  intro make s p
  have hs : Reachable {} s := ⟨.step make, List.mem_cons_of_mem _ List.mem_cons_self⟩
  obtain ⟨rounds, t, hrun, hc⟩ :=
    browsing_covers.2.1 {} p [.step (.edit (.removeZone "b")), .done] s hs rfl rfl (by decide)
  have hr : ((browse (fun p => listZones (some p)) (Script.run (Change.act {})) p
      [.step (.edit (.removeZone "b")), .done]).run s).1.toOption.map
        (·.map fun r => (r.items.map (·.name), r.next)) =
      some [(["c"], some (Utf8.encode "b")), (["a"], none)] := by decide +kernel
  rw [hrun] at hr
  exact ⟨rounds, t, hrun, Option.some.inj hr, hc⟩

end Registry

end ExemptZones
