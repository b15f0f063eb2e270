import ExemptZones.Console.Table
import ExemptZones.Failure

/-
Terminals. How a marked-up message or a table is shown is up to the terminal, and so is which texts its output takes.
What it does not take is not printed at all.

`Terminal.unicode` is a terminal without colours whose output takes every character.
-/

namespace ExemptZones

structure Terminal where
  /-- What is shown of a marked-up message. -/
  render : Text → Except Failure Text
  /-- The lines of a table, whose cells are marked up. -/
  table : List Console.Column → List (List Text) → Except Failure (List Text)
  /-- A text in such a form that its marks are shown. -/
  escape : Text → Text
  /-- What is printed of a text, if the output takes it. -/
  printed? : Text → Option String
  printed?_ascii : ∀ s : String, (∀ c ∈ s.toList, c.toNat < 0x80) → printed? s = some s

namespace Terminal

/-- What is printed of a marked-up message, and the end of its line. -/
def line? (t : Terminal) (message : Text) : Except Failure String :=
  match t.render message with
  | .ok text =>
    match t.printed? (text ++ "\n") with
    | some s => .ok s
    | none => .error .unencodable
  | .error f => .error f

/-- A marked-up message can be shown. -/
def Shows (t : Terminal) (message : Text) : Prop :=
  ∃ s, t.line? message = .ok s

end Terminal

namespace Markup

/-- What is shown of a text. A broken one is not shown, but its marks are looked at all the same. -/
def render (t : Text) : Except Failure Text :=
  match render? t.legible with
  | some s => .ok (match t with
    | .plain _ => s
    | .broken b => .broken b)
  | none => .error .strayMark

def escapeText : Text → Text
  | .plain s => escape s
  | .broken b => .ofPieces (b.pieces.flatMap fun p => if p = .char '[' then [.char '\\', p] else [p])

/-- A cell of a table. -/
def cell (t : Text) : Except Failure Console.Cell :=
  match shown? t.legible with
  | some cs => .ok cs
  | none => .error .strayMark

end Markup

def Terminal.unicode : Terminal where
  render := Markup.render
  table columns rows := do
    let rows ← rows.mapM fun cells => cells.mapM Markup.cell
    return (Console.Table.mk columns rows).lines.map .plain
  escape := Markup.escapeText
  printed? := Text.plain?
  printed?_ascii _ _ := rfl

end ExemptZones
