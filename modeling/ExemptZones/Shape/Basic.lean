import ExemptZones.Value.Basic

/-
The shape that a value has to have. A reader answers what the value stands for or every fault in
it, in the order of the parts: a reading of two parts has the faults of both.
-/

namespace ExemptZones.Shape

inductive FaultKind where
  | notObject
  | missing
  | unknownField
  | keyNotText
  | notText
  | unencodableText
  | emptyText
  | notList
  | notFlag
  | notFlagWord
  | notInteger
  | notIntegerText
  | integerTooLarge
  | fraction
  | notFinite
  | negative
  | notBytes
  | notJson
  deriving DecidableEq, Repr

/-- One step from a value to a part of it. -/
inductive Step where
  | field (name : String)
  | item (i : Int)
  deriving DecidableEq, Repr

structure Fault where
  kind : FaultKind
  path : List Step
  deriving DecidableEq, Repr

def Fault.under (s : Step) (f : Fault) : Fault :=
  { f with path := s :: f.path }

/-- What was read, or all faults. -/
abbrev Checked (α : Type) := Except (List Fault) α

abbrev Reader (α : Type) := Value → Checked α

def refuse {α : Type} (k : FaultKind) : Checked α :=
  .error [⟨k, []⟩]

namespace Checked

variable {α β γ : Type}

/-- Both parts; the faults of the first come first. -/
def both : Checked α → Checked β → Checked (α × β)
  | .ok a, .ok b => .ok (a, b)
  | .ok _, .error fs => .error fs
  | .error es, .ok _ => .error es
  | .error es, .error fs => .error (es ++ fs)

/-- A part of a larger value, reached by one step. -/
def under (s : Step) (c : Checked α) : Checked α :=
  c.mapError (·.map (·.under s))

@[simp] theorem both_ok (a : α) (b : β) : both (.ok a) (.ok b) = .ok (a, b) := rfl

@[simp] theorem under_ok (s : Step) (a : α) : under s (.ok a) = .ok a := rfl

end Checked

/-! ## Lists, and values that may be left open -/

/-- Reads items that stand at `i` and after it. -/
def items {α : Type} (r : Reader α) : Nat → List Value → Checked (List α)
  | _, [] => .ok []
  | i, v :: vs => (((r v).under (.item i)).both (items r (i + 1) vs)).map fun (x, xs) => x :: xs

def listOf {α : Type} (r : Reader α) : Reader (List α)
  | .list vs => items r 0 vs
  | _ => refuse .notList

def orNull {α : Type} (r : Reader α) : Reader (Option α)
  | .null => .ok none
  | v => (r v).map some

theorem items_map {α β : Type} {r : Reader β} {f : α → Value} {g : α → β} (h : ∀ x, r (f x) = .ok (g x)) (i : Nat)
    (xs : List α) : items r i (xs.map f) = .ok (xs.map g) := by
  induction xs generalizing i with
  | nil => rfl
  | cons x xs ih => simp [items, h, ih, Except.map]

/-! ## Records -/

abbrev Entries := List (Value × Value)

/-- The value of a named field. -/
def field? (name : String) : Entries → Option Value
  | [] => none
  | (.text k, v) :: es => if k = name then some v else field? name es
  | _ :: es => field? name es

def fieldOf {α : Type} (name : String) (r : Reader α) (es : Entries) : Checked α :=
  match field? name es with
  | some v => (r v).under (.field name)
  | none => .error [⟨.missing, [.field name]⟩]

def fieldOr {α : Type} (name : String) (r : Reader α) (default : α) (es : Entries) : Checked α :=
  match field? name es with
  | some v => (r v).under (.field name)
  | none => .ok default

end ExemptZones.Shape
