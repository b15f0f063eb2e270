import Mathlib.Algebra.Group.Nat.Defs
import ExemptZones.Command.Grammar

/-
Command lines that ask for a listing. The options that choose a part of it are written out and put before the other
words, whatever those are, and are read back as they were meant.

`Decimal.readInteger?_toString`: a number that is written out reads back, unless it has too many digits.
`Listing.Asks.read_spell`: options about pages change the part that is asked for, and nothing else.
-/

namespace ExemptZones

/-! ## Numbers -/

namespace Decimal

theorem toNat_of_isDigit {c : Char} (h : c.isDigit = true) : 0x30 ≤ c.toNat ∧ c.toNat < 0x30 + 10 := by
  simp only [Char.isDigit, Bool.and_eq_true, decide_eq_true_eq, UInt32.le_iff_toNat_le] at h
  exact ⟨h.1, Nat.lt_succ_of_le h.2⟩

theorem digitValue?_of_isDigit {c : Char} (h : c.isDigit = true) : digitValue? c = some (c.toNat - '0'.toNat) := by
  have hz : zeros.find? (fun z => z ≤ c.toNat && c.toNat < z + 10) = some 0x30 :=
    List.find?_cons_of_pos (by simpa using toNat_of_isDigit h)
  rw [digitValue?, hz]
  rfl

theorem digitValues?_of_isDigit {cs : List Char} (hn : cs ≠ []) (h : ∀ c ∈ cs, c.isDigit = true) :
    digitValues? cs = some (cs.map fun c => c.toNat - '0'.toNat) := by
  induction cs with
  | nil => exact absurd rfl hn
  | cons c cs ih =>
    obtain ⟨hc, hcs⟩ := List.forall_mem_cons.1 h
    cases cs with
    | nil => simp [digitValues?, digitValue?_of_isDigit hc]
    | cons d cs =>
      have hd : d ≠ '_' := by
        rintro rfl
        exact absurd (List.forall_mem_cons.1 hcs).1 (by decide)
      have hrest := ih (List.cons_ne_nil d cs) hcs
      rw [digitValues?]
      · simp [digitValue?_of_isDigit hc, hrest]
      · exact List.cons_ne_nil d cs
      · exact fun _ he => hd (List.cons.inj he).1

theorem trimBy_of_forall {p : Char → Bool} {cs : List Char} (h : ∀ c ∈ cs, p c = false) : Text.trimBy p cs = cs := by
  have hdrop : ∀ ds : List Char, (∀ c ∈ ds, p c = false) → ds.dropWhile p = ds := fun ds hd => by
    cases ds with
    | nil => rfl
    | cons c ds => exact List.dropWhile_cons_of_neg (by simp [hd c List.mem_cons_self])
  rw [Text.trimBy, hdrop cs h, hdrop cs.reverse fun c hc => h c (List.mem_reverse.1 hc), List.reverse_reverse]

/-- **A number that is written out** reads back, unless it has more digits than are read. -/
theorem readInteger?_toString (n : Nat) :
    readInteger? (toString n) = if n < 10 ^ mostDigits then some (n : Int) else none := by
  have hd : ∀ c ∈ Nat.toDigits 10 n, c.isDigit = true := fun c hc =>
    Nat.isDigit_of_mem_toDigits (by decide) (by decide) hc
  have hb : ∀ c ∈ Nat.toDigits 10 n, Text.isBlank c = false := fun c hc => by
    have := toNat_of_isDigit (hd c hc)
    simp only [Text.isBlank, Text.isWhite, Bool.or_eq_false_iff, Bool.and_eq_false_iff, decide_eq_false_iff_not,
      beq_eq_false_iff_ne, ne_eq]
    omega
  have hs : signed? (Nat.toDigits 10 n) = (unsigned? (Nat.toDigits 10 n)).map Int.ofNat := by
    unfold signed?
    split
    · rename_i h; exact absurd (hd '-' (h ▸ List.mem_cons_self)) (by decide)
    · rename_i h; exact absurd (hd '+' (h ▸ List.mem_cons_self)) (by decide)
    · rfl
  have hv : (Nat.toDigits 10 n).foldl (fun m c => 10 * m + (c.toNat - '0'.toNat)) 0 = n :=
    Nat.ofDigitChars_toDigits (by decide) (by decide)
  have hlen : (Nat.toDigits 10 n).length ≤ mostDigits ↔ n < 10 ^ mostDigits :=
    Nat.length_toDigits_le_iff (by decide) (by decide)
  rw [readInteger?, Nat.toString_eq_ofList_toDigits, String.toList_ofList, trimBy_of_forall hb, hs, unsigned?,
    digitValues?_of_isDigit Nat.toDigits_ne_nil hd]
  simp only [Option.bind_eq_bind, Option.bind_some, List.length_map, List.foldl_map, hv, hlen]
  split <;> rfl

end Decimal

/-! ## Options -/

/-- Options in their long form, each with its value in the next word. -/
def spell (gs : List Given) : List Text :=
  gs.flatMap fun (o, v) => [.plain o.long, v]

namespace Words

theorem has_eq (w : Words) (o : Opt) : w.has o = !(w.values o).isEmpty := by
  rw [has, values, Bool.eq_iff_iff]
  simp

theorem values_addOptions (gs : List Given) (w : Words) (o : Opt) :
    (w.addOptions gs).values o = (gs.filter fun g => g.1 = o).map (·.2) ++ w.values o := by
  simp [addOptions, values]

theorem values_of_not_has {w : Words} {o : Opt} (h : w.has o = false) : w.values o = [] := by
  simpa [has_eq] using h

end Words

/-- A word without a hyphen in front is no option. -/
theorem classify_plain (known : List Opt) {word : Text} (h : word.pieces.head? ≠ some (.char '-')) :
    classify known word = .ok .plain := by
  unfold classify
  split
  · rename_i hw; simp [hw] at h
  · rename_i hw; simp [hw] at h
  · rename_i hw; simp [hw] at h
  · rfl

/-- Options that are written out are read as they were given, and the other words as they are without them. -/
theorem scan_spell {anywhere : Bool} {known : List Opt} {gs : List Given}
    (hg : ∀ g ∈ gs, classify known g.1.long = .ok (.options [] (some g.1))) (words : List Text) :
    scan anywhere known (spell gs ++ words) = (scan anywhere known words).map (·.addOptions gs) := by
  induction gs with
  | nil =>
    cases h : scan anywhere known words with
    | error e => exact h
    | ok w => exact h
  | cons g gs ih =>
    obtain ⟨hfirst, hrest⟩ := List.forall_mem_cons.1 hg
    have hs : scan anywhere known (spell (g :: gs) ++ words) =
        ((scan anywhere known (spell gs ++ words)).map (·.addOptions [g])).map (·.addOptions []) := by
      show scanFrom anywhere known none (g.1.long :: g.2 :: (spell gs ++ words)) = _
      rw [scanFrom, hfirst]
      rfl
    rw [hs, ih hrest]
    cases scan anywhere known words with
    | error e => rfl
    | ok w => simp [Except.map, Words.addOptions]

/-! ## Listings -/

/-- The two listings; without a name the addresses of all zones are listed. -/
inductive Listing where
  | zones
  | addresses (zone : Text)
  deriving DecidableEq, Repr

namespace Listing

def name : Listing → String
  | .zones => "zones"
  | .addresses _ => "addresses"

def usage : Listing → Usage
  | .zones => .zones
  | .addresses _ => .addresses

def command : Listing → Excerpt → Command
  | .zones => .zones
  | .addresses zone => .addresses zone

/-- The command line with these words after the command. -/
def line (l : Listing) (words : List Text) : List Text :=
  "query" :: l.name :: words

theorem read_line (l : Listing) (words : List Text) : Request.read (l.line words) = l.usage.request words := by
  have hgroup : Request.read (l.line words) = Request.readGroup
      [("taxable", .taxable), ("zones", .zones), ("addresses", .addresses), ("zone", .zone)] (l.name :: words) := rfl
  have hname : classify [.help] l.name = .ok .plain := by
    cases l with
    | zones => exact classify_plain _ (show ("zones" : Text).pieces.head? ≠ some (.char '-') by decide)
    | addresses => exact classify_plain _ (show ("addresses" : Text).pieces.head? ≠ some (.char '-') by decide)
  have hscan : scan false [.help] (l.name :: words) = .ok { plain := l.name :: words } := by
    rw [scan, scanFrom, hname]
    rfl
  rw [hgroup, Request.readGroup, hscan]
  cases l <;> rfl

/-- The options that say which part of a listing is shown. -/
def pageOptions : List Opt := [.limit, .offset, .page, .pageKey, .countTotal]

/-- With these words after the command the whole listing is asked for as JSON, in a direction. What else they say is left
open, as is the form in which they say it. -/
structure Asks (l : Listing) (reverse : Bool) (words : List Text) (i : Invocation) : Prop where
  read : Request.read (l.line words) = .ok (.run i)
  command : i.command = l.command { reverse := reverse }
  json : i.json = true
  unpaged : ∃ w, scan true (.help :: l.usage.options) words = .ok w ∧ ∀ o ∈ pageOptions, w.has o = false

theorem command_inj {l l' : Listing} {e e' : Excerpt} (h : l'.command e' = l.command e) : l' = l ∧ e' = e := by
  cases l <;> cases l' <;> cases h <;> exact ⟨rfl, rfl⟩

/-- The listing that the plain words after a command ask for. -/
def named (l : Listing) (w : Words) : Except Misuse Listing :=
  match l with
  | .zones => (Usage.noArguments w).map fun _ => .zones
  | .addresses _ => if w.plain.isEmpty then .ok (.addresses "") else (Usage.oneArgument "ZONE" w).map .addresses

/-- What is listed is read from the plain words, and which part of it from the options. -/
theorem usage_read (l : Listing) (w : Words) :
    l.usage.read w = do
      let l' ← l.named w
      return l'.command (← Usage.excerpt w) := by
  cases l with
  | zones =>
    simp only [usage, Usage.zones, named]
    cases Usage.noArguments w <;> rfl
  | addresses zone =>
    simp only [usage, Usage.addresses, named]
    split
    · rfl
    · cases Usage.oneArgument "ZONE" w <;> rfl

theorem named_congr (l : Listing) {w w' : Words} (h : w'.plain = w.plain) : l.named w' = l.named w := by
  cases l <;> simp [named, Usage.noArguments, Usage.oneArgument, h]

theorem named_of_usage_read {l : Listing} {w : Words} {e : Excerpt} (h : l.usage.read w = .ok (l.command e)) :
    l.named w = .ok l ∧ Usage.excerpt w = .ok e := by
  rw [usage_read] at h
  cases hl : l.named w with
  | error m => rw [hl] at h; cases h
  | ok l' =>
    rw [hl] at h
    cases he : Usage.excerpt w with
    | error m => rw [he] at h; cases h
    | ok e' =>
      rw [he] at h
      obtain ⟨rfl, rfl⟩ := command_inj (Except.ok.inj h)
      exact ⟨rfl, rfl⟩

/-! ## The part of a listing -/

theorem natural_of_values {w : Words} {o : Opt} {least default : Nat} (h : w.values o = []) :
    Usage.natural w o least default = .ok default := by
  rw [Usage.natural, Words.value?, h]
  rfl

theorem natural_of_toString {w : Words} {o : Opt} {n least default : Nat} (h : w.values o = [.plain (toString n)])
    (hd : n < 10 ^ Decimal.mostDigits) (hn : least ≤ n) :
    Usage.natural w o least default = .ok n := by
  have hlt : ¬((n : Int) < (least : Int)) := by omega
  simp only [Usage.natural, Words.value?, h, List.getLast?_singleton, Decimal.readInteger?_toString, if_pos hd,
    if_neg hlt, Int.toNat_natCast]

theorem excerpt_eq {w : Words} {limit offset page : Nat} (hl : Usage.natural w .limit 0 0 = .ok limit)
    (ho : Usage.natural w .offset 0 0 = .ok offset) (hp : Usage.natural w .page 1 1 = .ok page) :
    Usage.excerpt w = .ok ⟨limit, offset, page, (w.value? .pageKey).getD "", w.has .reverse, w.has .countTotal⟩ := by
  rw [Usage.excerpt, hl, ho, hp]
  rfl

/-- Words that say the same of pages ask for the same part, but perhaps in another direction. -/
theorem excerpt_congr {w w' : Words} (h : ∀ o ∈ pageOptions, w'.values o = w.values o) :
    Usage.excerpt w' = (Usage.excerpt w).map fun e => { e with reverse := w'.has .reverse } := by
  have hnatural : ∀ o ∈ pageOptions, ∀ least default,
      Usage.natural w' o least default = Usage.natural w o least default := fun o ho least default => by
    rw [Usage.natural, Usage.natural, Words.value?, Words.value?, h o ho]
  have hkey : w'.value? .pageKey = w.value? .pageKey := congrArg List.getLast? (h _ (by decide))
  have hcount : w'.has .countTotal = w.has .countTotal := by rw [Words.has_eq, Words.has_eq, h _ (by decide)]
  rw [Usage.excerpt, Usage.excerpt, hnatural .limit (by decide), hnatural .offset (by decide),
    hnatural .page (by decide), hkey, hcount]
  cases Usage.natural w .limit 0 0 with
  | error m => rfl
  | ok limit => cases Usage.natural w .offset 0 0 <;> cases Usage.natural w .page 1 1 <;> rfl

/-- Options that choose a page. -/
def AboutPages (given : List Given) : Prop :=
  ∀ g ∈ given, g.1 ∈ [Opt.limit, .page, .pageKey]

section AboutPages

variable {given : List Given} (hg : AboutPages given)
include hg

theorem AboutPages.classify (l : Listing) :
    ∀ g ∈ given, classify (.help :: l.usage.options) g.1.long = .ok (.options [] (some g.1)) := by
  intro g hgs
  have ho := hg g hgs
  simp only [List.mem_cons, List.not_mem_nil, or_false] at ho
  rcases ho with ho | ho | ho <;> rw [ho] <;> cases l <;> rfl

/-- What other options say is not changed by them. -/
theorem AboutPages.values {o : Opt} (ho : o ∉ [Opt.limit, .page, .pageKey]) (w : Words) :
    (w.addOptions given).values o = w.values o := by
  have hnone : given.filter (fun g => g.1 = o) = [] :=
    List.filter_eq_nil_iff.2 fun g hgs hgo => ho (of_decide_eq_true hgo ▸ hg g hgs)
  rw [Words.values_addOptions, hnone]
  rfl

theorem AboutPages.has {o : Opt} (ho : o ∉ [Opt.limit, .page, .pageKey]) (w : Words) :
    (w.addOptions given).has o = w.has o := by
  rw [Words.has_eq, Words.has_eq, hg.values ho]

theorem AboutPages.value? {o : Opt} (ho : o ∉ [Opt.limit, .page, .pageKey]) (w : Words) :
    (w.addOptions given).value? o = w.value? o := by
  rw [Words.value?, Words.value?, hg.values ho]

end AboutPages

/-! ## The command line -/

/-- What a command makes of words that are told apart. -/
theorem request_eq (u : Usage) {words : List Text} {w : Words} (hw : scan true (.help :: u.options) words = .ok w) :
    u.request words =
      if w.has .help then .ok .help
      else (u.read w).map fun k =>
        .run ⟨k, w.value? .config, w.value? .database, w.has .json, w.has .verbose⟩ := by
  rw [Usage.request, hw]
  show (if w.has .help then _ else _) = _
  split
  · rfl
  · cases u.read w <;> rfl

theorem request_eq_run {u : Usage} {words : List Text} {w : Words} {i : Invocation}
    (hw : scan true (.help :: u.options) words = .ok w) (h : u.request words = .ok (.run i)) :
    w.has .help = false ∧ u.read w = .ok i.command ∧
      i = ⟨i.command, w.value? .config, w.value? .database, w.has .json, w.has .verbose⟩ := by
  rw [request_eq u hw] at h
  cases hhelp : w.has .help with
  | true => rw [hhelp] at h; cases h
  | false =>
    cases hk : u.read w with
    | error m => rw [hhelp, hk] at h; cases h
    | ok k =>
      rw [hhelp, hk] at h
      cases h
      exact ⟨rfl, rfl, rfl⟩

/-- **Options about pages choose a part of the listing**, and change nothing else. -/
theorem Asks.read_spell {l : Listing} {reverse : Bool} {words : List Text} {i : Invocation}
    (h : l.Asks reverse words i) {given : List Given} (hg : AboutPages given) :
    Request.read (l.line (spell given ++ words)) = (Usage.excerpt { options := given }).map fun e =>
      .run { i with command := l.command { e with reverse := reverse } } := by
  obtain ⟨w, hw, hun⟩ := h.unpaged
  obtain ⟨hhelp, hread, hi⟩ := request_eq_run hw (l.read_line words ▸ h.read)
  obtain ⟨hnamed, hwhole⟩ := named_of_usage_read (h.command ▸ hread)
  have hnone : ∀ o ∈ pageOptions, w.values o = [] := fun o ho => Words.values_of_not_has (hun o ho)
  have hreverse : w.has .reverse = reverse := by
    rw [excerpt_congr (w := {}) hnone] at hwhole
    exact congrArg Excerpt.reverse (Except.ok.inj hwhole)
  have hscan : scan true (.help :: l.usage.options) (spell given ++ words) = .ok (w.addOptions given) := by
    rw [scan_spell (hg.classify l), hw]
    rfl
  have hpart : Usage.excerpt (w.addOptions given) =
      (Usage.excerpt { options := given }).map fun e => { e with reverse := reverse } := by
    have hvalues : ∀ o ∈ pageOptions, (w.addOptions given).values o = Words.values { options := given } o :=
      fun o ho => by rw [Words.values_addOptions, hnone o ho, List.append_nil, Words.values]
    rw [excerpt_congr hvalues, hg.has (by decide), hreverse]
  rw [read_line, request_eq _ hscan, hg.has (by decide), hhelp, usage_read,
    (l.named_congr rfl : l.named (w.addOptions given) = l.named w), hnamed, hpart, hg.value? (o := .config) (by decide),
    hg.value? (o := .database) (by decide), hg.has (o := .json) (by decide), hg.has (o := .verbose) (by decide), hi]
  cases Usage.excerpt { options := given } <;> rfl

end Listing

end ExemptZones
