import ExemptZones.Yaml.Scalar
import ExemptZones.Yaml.Writer

/-
The characters and lines of a written document. All its characters are ordinary, so each takes one column, and no line
begins with a separator, since a further line of a text is indented.

`Position.behind_ordinary`: where a line goes on after some characters.
`Below`: what comes next stands on a line of its own, further out than a column.
-/

namespace ExemptZones.Yaml

open Writer

variable {c : Char} {cs : List Char}

/-! ## Characters -/

/-- All characters stand for themselves. -/
def Ordinary (cs : List Char) : Prop :=
  ∀ c ∈ cs, isOrdinary c = true

instance (cs : List Char) : Decidable (Ordinary cs) :=
  List.decidableBAll (fun c => isOrdinary c = true) cs

theorem Ordinary.nil : Ordinary [] := nofun

theorem Ordinary.cons (hc : isOrdinary c = true) (h : Ordinary cs) : Ordinary (c :: cs) :=
  List.forall_mem_cons.2 ⟨hc, h⟩

theorem Ordinary.append {ds : List Char} (h : Ordinary cs) (h' : Ordinary ds) : Ordinary (cs ++ ds) := fun c hc =>
  (List.mem_append.1 hc).elim (h c) (h' c)

theorem Ordinary.blanks (n : Nat) : Ordinary (List.replicate n ' ') := fun c hc => by
  rw [List.eq_of_mem_replicate hc]
  decide

theorem Ordinary.newLine (n : Nat) : Ordinary (newLine n) :=
  .cons (by decide) (.blanks n)

theorem isBreak_of_isOrdinary (h : isOrdinary c = true) (hn : c ≠ '\n') : isBreak c = false := by
  simp only [isOrdinary, Bool.or_eq_true, Bool.and_eq_true, decide_eq_true_eq, hn, false_or] at h
  simp only [isBreak, Bool.or_eq_false_iff, decide_eq_false_iff_not]
  refine ⟨⟨⟨⟨hn, ?_⟩, ?_⟩, ?_⟩, ?_⟩ <;> rintro rfl <;> revert h <;> decide

theorem isGap_of_isOrdinary (h : isOrdinary c = true) (hn : c ≠ '\n') (hb : c ≠ ' ') : isGap c = false := by
  have ht : c ≠ '\t' := by
    rintro rfl
    revert h
    decide
  simp [isGap, hb, ht, isBreak_of_isOrdinary h hn]

/-! ## Characters next to each other -/

section Pairs

variable {p q : Char → Bool}

theorem hasPair_tail (h : hasPair p q (c :: cs) = false) : hasPair p q cs = false := by
  cases cs with
  | nil => rfl
  | cons d r => exact (Bool.or_eq_false_iff.1 h).2

theorem hasPair_head {d : Char} (h : hasPair p q (c :: cs) = false) (hp : p c = true) (hd : cs.head? = some d) :
    q d = false := by
  obtain ⟨r, rfl⟩ : ∃ r, cs = d :: r := by
    cases cs with
    | nil => cases hd
    | cons e r => exact ⟨r, by rw [Option.some.inj hd]⟩
  simpa [hp] using (Bool.or_eq_false_iff.1 h).1

theorem hasPair_mono {p' q' : Char → Bool} (hp : ∀ c, p c = true → p' c = true)
    (hq : ∀ c, q c = true → q' c = true) (h : hasPair p' q' cs = false) : hasPair p q cs = false := by
  induction cs with
  | nil => rfl
  | cons c cs ih =>
    cases cs with
    | nil => rfl
    | cons d r =>
      simp only [hasPair, Bool.or_eq_false_iff, Bool.and_eq_false_iff] at h ⊢
      have himp : ∀ {a b : Bool}, (a = true → b = true) → b = false → a = false := by decide
      exact ⟨h.1.imp (himp (hp c)) (himp (hq d)), ih h.2⟩

theorem hasPair_of_forall (h : ∀ c ∈ cs, p c = false) : hasPair p q cs = false := by
  induction cs with
  | nil => rfl
  | cons c cs ih =>
    have ih := ih fun d hd => h d (List.mem_cons_of_mem _ hd)
    cases cs with
    | nil => rfl
    | cons d r => simp [hasPair, h c List.mem_cons_self, ih]

end Pairs

/-! ## Positions -/

section Positions

variable {p : Position}

theorem length_marks (p : Position) (cs : List Char) : (marks p cs).length = cs.length := by
  induction cs generalizing p with
  | nil => rfl
  | cons c cs ih => simp [marks, ih]

theorem Position.behind_append (p : Position) (a b : List Char) : p.behind (a ++ b) = (p.behind a).behind b := by
  simp [Position.behind]

theorem isOrdinary_ne_orderMark (h : isOrdinary c = true) : c ≠ orderMark := by
  rintro rfl
  exact absurd h (by decide)

/-- Ordinary characters take one column each. -/
theorem Position.after_ordinary (h : isOrdinary c = true) (hn : c ≠ '\n') :
    p.after c = ⟨p.index + 1, p.line, p.column + 1⟩ := by
  rw [Position.after, if_neg (by simp [isBreak_of_isOrdinary h hn]), if_neg (isOrdinary_ne_orderMark h)]

theorem Position.after_newline (p : Position) : p.after '\n' = ⟨p.index + 1, p.line + 1, 0⟩ := by
  simp [Position.after, isBreak]

theorem Position.behind_ordinary (h : ∀ c ∈ cs, isOrdinary c = true ∧ c ≠ '\n') :
    p.behind cs = ⟨p.index + cs.length, p.line, p.column + cs.length⟩ := by
  induction cs generalizing p with
  | nil => rfl
  | cons c cs ih =>
    have hc := h c List.mem_cons_self
    have ih := ih (p := p.after c) fun d hd => h d (List.mem_cons_of_mem _ hd)
    rw [Position.after_ordinary hc.1 hc.2] at ih
    simp only [Position.behind, List.foldl_cons, Position.after_ordinary hc.1 hc.2, List.length_cons] at ih ⊢
    rw [ih]
    simp only [Position.mk.injEq, true_and]
    omega

theorem Position.behind_blanks (p : Position) (n : Nat) :
    p.behind (List.replicate n ' ') = ⟨p.index + n, p.line, p.column + n⟩ := by
  have h : ∀ c ∈ List.replicate n ' ', isOrdinary c = true ∧ c ≠ '\n' := by
    intro c hc
    rw [List.eq_of_mem_replicate hc]
    decide
  simpa using Position.behind_ordinary (p := p) h

theorem Position.line_le_behind (p : Position) (cs : List Char) : p.line ≤ (p.behind cs).line := by
  induction cs generalizing p with
  | nil => exact Nat.le_refl _
  | cons c cs ih =>
    refine Nat.le_trans ?_ (ih (p.after c))
    unfold Position.after
    split
    · exact Nat.le_succ _
    · split <;> exact Nat.le_refl _

end Positions

/-! ## Lines -/

theorem isSeparator_cons {p : Position} (hd : c ≠ '-') (hp : c ≠ '.') :
    isSeparator (marks p (c :: cs)) = false := by
  have ht : ∀ d, c ≠ d → isTriple d (marks p (c :: cs)) = false := by
    intro d hcd
    cases cs with
    | nil => rfl
    | cons x r => cases r <;> simp [marks, isTriple, hcd]
  rw [isSeparator, ht _ hd, ht _ hp]
  rfl

theorem isSeparator_blanks {indent : Nat} (hi : 0 < indent) (p : Position) (cs : List Char) :
    isSeparator (marks p (List.replicate indent ' ' ++ cs)) = false := by
  obtain ⟨n, rfl⟩ : ∃ n, indent = n + 1 := ⟨indent - 1, by omega⟩
  exact isSeparator_cons (by decide) (by decide)

theorem of_breaksAt {barred : Bool} {column : Nat} (h : breaksAt barred column cs = true) :
    barred = false ∧ cs ≠ [] ∧ cs.head? ≠ some ' ' := by
  cases cs with
  | nil => simp [breaksAt] at h
  | cons d r =>
    simp only [breaksAt, Bool.and_eq_true, Bool.not_eq_true', decide_eq_true_eq] at h
    exact ⟨h.1.1, nofun, fun hd => h.2 (Option.some.inj hd)⟩

theorem skipSpaces_blanks (hc : c ≠ ' ') (p : Position) (n : Nat) :
    skipSpaces (marks p (List.replicate n ' ' ++ c :: cs)) = marks (p.behind (List.replicate n ' ')) (c :: cs) := by
  induction n generalizing p with
  | zero => simp [skipSpaces, marks, hc, Position.behind]
  | succ n ih => simpa [skipSpaces, List.replicate_succ, marks, Position.behind] using ih (p.after ' ')

theorem takeWhile_blanks (hc : c ≠ ' ') (p : Position) (n : Nat) (cs : List Char) :
    ((marks p (List.replicate n ' ' ++ c :: cs)).takeWhile fun m => m.char = ' ').map (·.char) =
      List.replicate n ' ' := by
  induction n generalizing p with
  | zero => simp [marks, hc]
  | succ n ih => simpa [List.replicate_succ, marks] using ih (p.after ' ')

theorem breaksBetween_blanks (hc : c ≠ ' ') (hn : isBreak c = false) (p : Position) (n : Nat) :
    breaksBetween (marks p (List.replicate n ' ' ++ c :: cs)) =
      some ([], marks (p.behind (List.replicate n ' ')) (c :: cs)) := by
  induction n generalizing p with
  | zero => simp [breaksBetween, marks, hc, hn, Position.behind]
  | succ n ih => simpa [breaksBetween, List.replicate_succ, marks, Position.behind, isBreak] using ih (p.after ' ')

/-- A character that is not skipped between tokens. -/
def Begins (c : Char) : Prop :=
  c ≠ ' ' ∧ c ≠ '#' ∧ isBreak c = false

instance (c : Char) : Decidable (Begins c) :=
  inferInstanceAs (Decidable (c ≠ ' ' ∧ c ≠ '#' ∧ isBreak c = false))

/-- What comes next stands on a line of its own at a column below `n`, if anything does. -/
def Below (n : Nat) (cs : List Char) : Prop :=
  cs = [] ∨ ∃ k c r, cs = List.replicate k ' ' ++ c :: r ∧ k < n ∧ Begins c

theorem Below.mono {n m : Nat} (h : Below n cs) (hnm : n ≤ m) : Below m cs := by
  rcases h with rfl | ⟨k, c, r, rfl, hk, hc⟩
  · exact .inl rfl
  · exact .inr ⟨k, c, r, rfl, Nat.lt_of_lt_of_le hk hnm, hc⟩

end ExemptZones.Yaml
