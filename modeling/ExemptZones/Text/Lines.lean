/-
Line breaks. A file is read with every `\r\n` and `\r` taken as `\n`. A plain list is then cut at
any of the characters that end a line.
-/

namespace ExemptZones.Text

/-- Every break of a text file as `\n`. -/
def unifyBreaks : List Char → List Char
  | [] => []
  | '\r' :: '\n' :: cs => '\n' :: unifyBreaks cs
  | '\r' :: cs => '\n' :: unifyBreaks cs
  | c :: cs => c :: unifyBreaks cs

/-- The characters that end a line of a plain list. -/
def endsLine (c : Char) : Bool :=
  let n := c.toNat
  (0x0a ≤ n && n ≤ 0x0d) || (0x1c ≤ n && n ≤ 0x1e) || n == 0x85 || n == 0x2028 || n == 0x2029

/-- The lines of a text, without what ends them; nothing follows the last break. -/
def splitLines : List Char → List (List Char)
  | [] => []
  | '\r' :: '\n' :: cs => [] :: splitLines cs
  | c :: cs =>
    if endsLine c then [] :: splitLines cs
    else
      match splitLines cs with
      | [] => [[c]]
      | l :: ls => (c :: l) :: ls

/-- The pieces of a text between the occurrences of `sep`: one more than there are occurrences. -/
def splitAt {α : Type} [DecidableEq α] (sep : α) : List α → List (List α)
  | [] => [[]]
  | c :: cs =>
    if c = sep then [] :: splitAt sep cs
    else
      match splitAt sep cs with
      | [] => [[c]]
      | l :: ls => (c :: l) :: ls

end ExemptZones.Text
