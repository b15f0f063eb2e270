import ExemptZones.Command.Run

/-
Which marked-up texts a terminal can show that takes every character. What stands before a mark changes nothing of it
unless it ends in backslashes, which may have the mark shown as it stands; so a name without opening brackets fits before
any mark that may go unread.

`Shell.shows_changed`: what is said when something was done to a zone with such a name can be shown.
-/

namespace ExemptZones

namespace Markup

/-- While these marks are open the text can be shown: no mark in it closes nothing. -/
def Shows (opened : List String) (cs : List Char) : Prop :=
  (showPieces opened (pieces cs)).isSome = true

variable {opened opened' : List String} {c : Char} {cs t i rest : List Char} {n : Nat}

theorem isSome_showPieces_addPlain (ps : List Piece) :
    (showPieces opened (addPlain c ps)).isSome = (showPieces opened ps).isSome := by
  cases ps with
  | nil => simp [addPlain, showPieces]
  | cons p ps => cases p <;> simp [addPlain, showPieces]

theorem shows_nil : Shows opened [] := by
  simp [Shows, pieces, mark?, showPieces]

/-- A character that begins no mark can be shown. -/
theorem shows_cons (h : mark? (c :: cs) = none) : Shows opened (c :: cs) ↔ Shows opened cs := by
  unfold Shows
  rw [pieces]
  split
  · rename_i h'; rw [h] at h'; cases h'
  · rw [isSome_showPieces_addPlain]

/-- A mark is shown as it stands after an odd number of backslashes, and opens or closes otherwise. -/
theorem shows_mark (h : mark? cs = some (n, i, rest)) :
    Shows opened cs ↔
      if n % 2 = 1 then Shows opened rest else ∃ opened', step? i opened = some opened' ∧ Shows opened' rest := by
  unfold Shows
  rw [pieces]
  split
  · rename_i h'
    rw [h] at h'
    cases h'
    simp only [showPieces]
    split
    · cases showPieces opened (pieces rest) <;> simp
    · cases step? i opened with
      | none => simp
      | some o => cases h : showPieces o (pieces rest) <;> simp [h]
  · rename_i h'; rw [h] at h'; cases h'

/-- A mark without backslashes that closes nothing but what is open. -/
theorem shows_of_step? (h : mark? cs = some (0, i, rest)) (hstep : step? i opened = some opened')
    (hr : Shows opened' rest) : Shows opened cs :=
  (shows_mark h).2 ⟨opened', hstep, hr⟩

theorem mark?_cons (hb : c ≠ '\\') (ho : c ≠ '[') : mark? (c :: cs) = none := by
  unfold mark?
  split <;> simp_all

/-- A mark after a text without opening brackets is the mark that follows the text. -/
theorem exists_mark?_of_append (h : '[' ∉ cs) (hm : mark? (cs ++ t) = some (n, i, rest)) :
    ∃ m, mark? t = some (m, i, rest) := by
  induction cs generalizing n with
  | nil => exact ⟨n, hm⟩
  | cons c cs ih =>
    rw [List.mem_cons, not_or] at h
    by_cases hb : c = '\\'
    · subst hb
      rw [List.cons_append, mark?] at hm
      obtain ⟨⟨k, j, r⟩, hk, he⟩ := Option.map_eq_some_iff.1 hm
      cases he
      exact ih h.2 hk
    · rw [List.cons_append, mark?_cons hb (Ne.symm h.1)] at hm
      cases hm

/-- Text without opening brackets and backslashes. -/
def IsPlain (cs : List Char) : Prop :=
  ∀ c ∈ cs, c ≠ '\\' ∧ c ≠ '['

instance (cs : List Char) : Decidable (IsPlain cs) :=
  List.decidableBAll (fun c => c ≠ '\\' ∧ c ≠ '[') cs

theorem IsPlain.append (hs : IsPlain cs) (ht : IsPlain t) : IsPlain (cs ++ t) := fun c hc =>
  (List.mem_append.1 hc).elim (hs c) (ht c)

theorem isPlain_toString (n : Nat) : IsPlain (toString n).toList := by
  intro c hc
  have hmem : c ∈ Nat.toDigits 10 n := by rwa [Nat.toString_eq_repr, Nat.toList_repr] at hc
  have hd : c.isDigit = true := Nat.isDigit_of_mem_toDigits (by decide) (by decide) hmem
  constructor <;> rintro rfl <;> exact absurd hd (by decide)

theorem IsPlain.shows_append (h : IsPlain cs) : Shows opened (cs ++ t) ↔ Shows opened t := by
  induction cs with
  | nil => rfl
  | cons c cs ih =>
    obtain ⟨hb, ho⟩ := h c List.mem_cons_self
    rw [List.cons_append, shows_cons (mark?_cons hb ho)]
    exact ih fun d hd => h d (List.mem_cons_of_mem _ hd)

theorem IsPlain.shows (h : IsPlain cs) : Shows opened cs := by
  rw [← List.append_nil cs, h.shows_append]
  exact shows_nil

/-- A text without opening brackets before a mark, where all goes well with and without the mark. -/
theorem shows_append_mark (h : '[' ∉ cs) (hm : mark? t = some (0, i, rest)) (hstep : step? i opened = some opened')
    (hwith : Shows opened' rest) (hwithout : Shows opened rest) : Shows opened (cs ++ t) := by
  induction cs with
  | nil => exact shows_of_step? hm hstep hwith
  | cons c cs ih =>
    cases hc : mark? (c :: cs ++ t) with
    | none => exact (shows_cons hc).2 (ih fun hmem => h (List.mem_cons_of_mem _ hmem))
    | some p =>
      obtain ⟨n, j, r⟩ := p
      obtain ⟨m, hj⟩ := exists_mark?_of_append h hc
      rw [hm] at hj
      cases hj
      rw [shows_mark hc]
      split
      · exact hwithout
      · exact ⟨opened', hstep, hwith⟩

theorem isSome_render? (s : String) : (render? s).isSome = true ↔ Shows [] s.toList := by
  simp [render?, shown?, Shows]

end Markup

namespace Terminal

@[simp] theorem printed?_unicode (s : String) : unicode.printed? s = some s := rfl

/-- A message whose marks all go well is shown where every character is taken. -/
theorem unicode_shows {message : String} (h : (Markup.render? message).isSome = true) : unicode.Shows message := by
  obtain ⟨s, hs⟩ := Option.isSome_iff_exists.1 h
  have hrender : unicode.render message = .ok s := by
    show Markup.render message = .ok s
    rw [Markup.render, show (message : Text).legible = message from rfl, hs]
  exact ⟨s ++ "\n", by simp [line?, hrender, Text.plain_append]⟩

end Terminal

namespace Shell

open Markup

/-- A name without opening brackets in what is said when something was done. -/
theorem shows_done {before name after : String} (hb : IsPlain before.toList) (hn : '[' ∉ name.toList)
    (ha : IsPlain after.toList) : Terminal.unicode.Shows (doneMessage (before ++ strong name ++ after)) := by
  have heq : ("[green]✓[/green] " ++ (before ++ ("[bold]" ++ name ++ "[/bold]") ++ after)).toList =
      "[green]".toList ++ ("✓".toList ++ ("[/green]".toList ++ (" ".toList ++ (before.toList ++
        ("[bold]".toList ++ (name.toList ++ ("[/bold]".toList ++ after.toList))))))) := by
    simp [String.toList_append]
  have hgreen : ∀ t, Markup.Shows ["green"] t → Markup.Shows [] ("[green]".toList ++ t) :=
    fun _ => shows_of_step? rfl rfl
  have hplain : ∀ t, Markup.Shows [] t → Markup.Shows ["green"] ("[/green]".toList ++ t) :=
    fun _ => shows_of_step? rfl rfl
  have hbold : ∀ t, Markup.Shows ["bold"] t → Markup.Shows [] ("[bold]".toList ++ t) :=
    fun _ => shows_of_step? rfl rfl
  have hname : Markup.Shows ["bold"] (name.toList ++ ("[/bold]".toList ++ after.toList)) :=
    shows_append_mark hn rfl rfl ha.shows ha.shows
  refine Terminal.unicode_shows ?_
  rw [isSome_render?, heq]
  refine hgreen _ ((IsPlain.shows_append (by decide)).2 (hplain _ ?_))
  exact (IsPlain.shows_append (by decide)).2 (hb.shows_append.2 (hbold _ hname))

/-- The same of a count of addresses before the name. -/
theorem shows_counted {before between name : String} (n : Nat) (hb : IsPlain before.toList)
    (hm : IsPlain between.toList) (hn : '[' ∉ name.toList) :
    Terminal.unicode.Shows (doneMessage (before ++ toString n ++ between ++ strong name)) := by
  have hplain : IsPlain (before ++ toString n ++ between).toList := by
    simp only [String.toList_append]
    exact (hb.append (isPlain_toString n)).append hm
  have heq : (before ++ toString n ++ between ++ strong name : Text) =
      (before ++ toString n ++ between : String) ++ strong name ++ "" := by
    simp [strong, Text.plain_append]
  rw [heq]
  exact shows_done hplain hn (by decide)

/-- **What is said of a change can be shown** where every character is taken, if the zone's name has no opening
bracket. -/
theorem shows_changed (k : MessageKind) {zone : String} (addresses : List Text) (h : '[' ∉ zone.toList) :
    Terminal.unicode.Shows (doneMessage (changed k zone addresses)) := by
  cases k with
  | addZone => exact shows_done (by decide) h (by decide)
  | modifyZone => exact shows_done (by decide) h (by decide)
  | removeZone => exact shows_done (by decide) h (by decide)
  | addAddresses => exact shows_counted _ (by decide) (by decide) h
  | removeAddresses => exact shows_counted _ (by decide) (by decide) h

end Shell

end ExemptZones
