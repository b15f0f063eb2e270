import ExemptZones.Text.Basic
import ExemptZones.Yaml.Fault
import ExemptZones.Yaml.Mark

/-
Scalars as they are written: plain, between quotes, or as a block of lines. Each reader answers the
content and the rest of the text.

Between quotes a line break and the blanks around it count as one blank, and further breaks as
themselves. This is done in two steps: `singlePieces` and `doublePieces` find the closing quote and take the escapes
out, `unfold` joins the lines.
-/

namespace ExemptZones.Yaml

/-- What some line breaks after each other stand for: the first is a blank if it is alone. -/
def joinBreaks (first : Char) (more : List Char) : List Char :=
  if first ≠ '\n' then first :: more
  else if more.isEmpty then [' ']
  else more

/-! ## Between quotes -/

inductive Piece where
  | char (c : Char)
  /-- A code that is half of a surrogate pair. Two of them are not put together. -/
  | half (n : Nat)
  | blank (c : Char)
  | lineBreak (c : Char)
  /-- A line break taken away by a backslash before it. -/
  | joint
  deriving DecidableEq, Repr

def escapes : List (Char × Char) :=
  [('0', '\x00'), ('a', '\x07'), ('b', '\x08'), ('t', '\t'), ('\t', '\t'), ('n', '\n'), ('v', '\x0b'), ('f', '\x0c'),
    ('r', '\r'), ('e', '\x1b'), (' ', ' '), ('"', '"'), ('\\', '\\'), ('/', '/'), ('N', '\x85'), ('_', '\xa0'),
    ('L', '\u2028'), ('P', '\u2029')]

def hexValue? (c : Char) : Option Nat :=
  if '0' ≤ c ∧ c ≤ '9' then some (c.toNat - 48)
  else if 'a' ≤ c ∧ c ≤ 'f' then some (c.toNat - 87)
  else if 'A' ≤ c ∧ c ≤ 'F' then some (c.toNat - 55)
  else none

/-- The number that hexadecimal digits spell. -/
def hexNumber? (ds : List Char) : Option Nat :=
  ds.foldlM (fun n c => (hexValue? c).map (16 * n + ·)) 0

/-- The piece with a code. -/
def ofCode (n : Nat) : Except Fault Piece :=
  if 0xd800 ≤ n ∧ n ≤ 0xdfff then .ok (.half n)
  else if n < 0x110000 then .ok (.char (Char.ofNat n))
  else .error .noCharacter

def codePiece (ds : List Mark) : Except Fault Piece :=
  match hexNumber? (ds.map (·.char)) with
  | some n => ofCode n
  | none => .error .badEscape

abbrev Pieces := Except Fault (List Piece × List Mark)

def Pieces.push (p : Piece) (ps : Pieces) : Pieces :=
  ps.map fun (xs, rest) => (p :: xs, rest)

/-- A piece that is a line break; no separator may follow it. -/
def pushBreak (p : Piece) (rest : List Mark) (ps : Pieces) : Pieces :=
  if isSeparator rest then .error .separatorInside else ps.push p

/-- The pieces after an opening single quote. -/
def singlePieces : List Mark → Pieces
  | [] => .error .unfinished
  | m :: r =>
    if m.char = '\'' then
      match r with
      | [] => .ok ([], [])
      | n :: r => if n.char = '\'' then (singlePieces r).push (.char '\'') else .ok ([], n :: r)
    else if m.char = ' ' || m.char = '\t' then (singlePieces r).push (.blank m.char)
    else if isBreak m.char then pushBreak (.lineBreak (breakChar m.char)) r (singlePieces r)
    else (singlePieces r).push (.char m.char)

/-- The pieces after an opening double quote. -/
def doublePieces : List Mark → Pieces
  | [] => .error .unfinished
  | m :: r =>
    if m.char = '"' then .ok ([], r)
    else if m.char = '\\' then
      match r with
      | [] => .error .unfinished
      | n :: r =>
        match escapes.lookup n.char with
        | some c => (doublePieces r).push (.char c)
        | none =>
          if isBreak n.char then pushBreak .joint r (doublePieces r)
          else if n.char = 'x' then
            match r with
            | a :: b :: r => do (doublePieces r).push (← codePiece [a, b])
            | _ => .error .badEscape
          else if n.char = 'u' then
            match r with
            | a :: b :: c :: d :: r => do (doublePieces r).push (← codePiece [a, b, c, d])
            | _ => .error .badEscape
          else if n.char = 'U' then
            match r with
            | a :: b :: c :: d :: e :: f :: g :: h :: r => do
              (doublePieces r).push (← codePiece [a, b, c, d, e, f, g, h])
            | _ => .error .badEscape
          else .error .badEscape
    else if m.char = ' ' || m.char = '\t' then (doublePieces r).push (.blank m.char)
    else if isBreak m.char then pushBreak (.lineBreak (breakChar m.char)) r (doublePieces r)
    else (doublePieces r).push (.char m.char)

/-- The closing quote is the end of the pieces. -/
theorem doublePieces_quote {m : Mark} (h : m.char = '"') (r : List Mark) : doublePieces (m :: r) = .ok ([], r) := by
  rw [doublePieces.eq_def]
  simp [h]

/-- What has been seen since the last piece that is neither a blank nor a break. -/
inductive Pause where
  /-- Blanks only. -/
  | blanks (cs : List Char)
  /-- Breaks: the first, unless it was taken away, and those after it. -/
  | breaks (first : Option Char) (more : List Char)
  deriving DecidableEq, Repr

/-- What a pause stands for. -/
def Pause.text : Pause → List Char
  | .blanks cs => cs
  | .breaks none more => more
  | .breaks (some b) more => joinBreaks b more

def Pause.pieces (p : Pause) : List Text.Piece :=
  p.text.map .char

/-- The content of pieces that follow a pause. -/
def unfold : Pause → List Piece → List Text.Piece
  | p, [] => p.pieces
  | p, .char c :: r => p.pieces ++ .char c :: unfold (.blanks []) r
  | p, .half n :: r => p.pieces ++ .half n :: unfold (.blanks []) r
  | .blanks cs, .blank c :: r => unfold (.blanks (cs ++ [c])) r
  | .breaks b more, .blank _ :: r => unfold (.breaks b more) r
  | .blanks _, .lineBreak c :: r => unfold (.breaks (some c) []) r
  | .breaks b more, .lineBreak c :: r => unfold (.breaks b (more ++ [c])) r
  | p, .joint :: r => p.pieces ++ unfold (.breaks none []) r

def content (ps : List Piece) : Text :=
  .ofPieces (unfold (.blanks []) ps)

def single (ms : List Mark) : Except Fault (Text × List Mark) :=
  (singlePieces ms).map fun (ps, rest) => (content ps, rest)

def double (ms : List Mark) : Except Fault (Text × List Mark) :=
  (doublePieces ms).map fun (ps, rest) => (content ps, rest)

/-! ## Plain -/

/-- The characters that have a meaning of their own inside brackets. -/
def isFlowMark (c : Char) : Bool :=
  c = ',' || c = '[' || c = ']' || c = '\x7b' || c = '\x7d'

/-- Whether a plain word ends before these characters. -/
def endsWord (flow : Bool) : List Mark → Bool
  | [] => true
  | m :: r =>
    isGap m.char ||
      (m.char = ':' && (atGap r || (flow && (match r with | n :: _ => isFlowMark n.char | [] => false)))) ||
      (flow && (isFlowMark m.char || m.char = '?'))

/-- A plain word and what follows it. -/
def word (flow : Bool) : List Mark → List Char × List Mark
  | [] => ([], [])
  | m :: r =>
    if endsWord flow (m :: r) then ([], m :: r)
    else
      let (w, rest) := word flow r
      (m.char :: w, rest)

/-- The line breaks between two words and the column of the second, unless a document ends there. -/
def breaksBetween : List Mark → Option (List Char × List Mark)
  | [] => some ([], [])
  | m :: r =>
    if isBreak m.char then
      if isSeparator r then none
      else (breaksBetween r).map fun (bs, rest) => (breakChar m.char :: bs, rest)
    else if m.char = ' ' then breaksBetween r
    else some ([], m :: r)

/-- What stands between two words of a plain scalar, and what follows it. -/
def between (ms : List Mark) : Option (List Char × List Mark) :=
  let spaces := ms.takeWhile fun m => m.char = ' '
  let rest := skipSpaces ms
  match rest with
  | m :: r =>
    if isBreak m.char then
      if isSeparator r then none
      else (breaksBetween r).map fun (bs, rest) => (joinBreaks (breakChar m.char) bs, rest)
    else if spaces.isEmpty then none
    else some (spaces.map (·.char), rest)
  | [] => none

/-- Whether a plain scalar goes on here: not with a comment, and outside brackets not at a column below
`indent`. -/
def goesOn (flow : Bool) (indent : Nat) (ms : List Mark) : Bool :=
  match ms with
  | [] => false
  | m :: _ => m.char ≠ '#' && (flow || indent ≤ m.pos.column) && !endsWord flow ms

/-- A plain scalar: words, at most `fuel` of them, and what stands between them. -/
def plainFrom (flow : Bool) (indent : Nat) : Nat → List Mark → List Char × List Mark
  | 0, ms => ([], ms)
  | fuel + 1, ms =>
    let (w, rest) := word flow ms
    match between rest with
    | some (gap, next) =>
      if goesOn flow indent next then
        let (cs, rest) := plainFrom flow indent fuel next
        (w ++ gap ++ cs, rest)
      else (w, rest)
    | none => (w, rest)

def plain (flow : Bool) (indent fuel : Nat) (ms : List Mark) : String × List Mark :=
  let (cs, rest) := plainFrom flow indent fuel ms
  (String.ofList cs, rest)

/-! ## Blocks -/

/-- What becomes of the line breaks at the end of a block. -/
inductive Chomp where
  | strip
  | clip
  | keep
  deriving DecidableEq, Repr

structure Header where
  chomp : Chomp := .clip
  /-- How much further in than its surroundings the block stands, if that is said. -/
  increment : Option Nat := none
  deriving DecidableEq, Repr

def chomp? (c : Char) : Option Chomp :=
  if c = '+' then some .keep else if c = '-' then some .strip else none

def increment? (c : Char) : Option Nat :=
  if c.isDigit then some (c.toNat - 48) else none

/-- The two indicators of a header, in either order, each at most once. -/
def indicators : List Mark → Header × List Mark
  | [] => ({}, [])
  | m :: r =>
    match chomp? m.char, increment? m.char with
    | some ch, _ =>
      match r with
      | n :: r' => match increment? n.char with
        | some k => (⟨ch, some k⟩, r')
        | none => (⟨ch, none⟩, r)
      | [] => (⟨ch, none⟩, [])
    | none, some k =>
      match r with
      | n :: r' => match chomp? n.char with
        | some ch => (⟨ch, some k⟩, r')
        | none => (⟨.clip, some k⟩, r)
      | [] => (⟨.clip, some k⟩, [])
    | none, none => ({}, m :: r)

/-- The end of a line on which nothing but a comment may follow. -/
def restOfLine? (ms : List Mark) : Option (List Mark) :=
  let ms := skipSpaces ms
  let ms := if startsWith '#' ms then skipLine ms else ms
  match ms with
  | [] => some []
  | m :: r => if isBreak m.char then some r else none

/-- The header of a block, and the lines after it. -/
def header (ms : List Mark) : Except Fault (Header × List Mark) :=
  let (h, rest) := indicators ms
  if h.increment = some 0 then .error .badHeader
  else if !(atLineEnd rest || startsWith ' ' rest) then .error .badHeader
  else match restOfLine? rest with
    | some rest => .ok (h, rest)
    | none => .error .badHeader

/-- Drops spaces, at most `n`, and counts them. -/
def dropSpaces : Nat → List Mark → Nat × List Mark
  | 0, ms => (0, ms)
  | _, [] => (0, [])
  | n + 1, m :: r =>
    if m.char = ' ' then
      let (k, rest) := dropSpaces n r
      (k + 1, rest)
    else (0, m :: r)

/-- A place in a block: the breaks before it, its column, and what stands there. -/
structure BlockPlace where
  breaks : List Char
  column : Nat
  rest : List Mark

/-- Goes past empty lines to the first character of a line that is not, counting at most `indent` spaces. -/
def toNextLine (indent : Nat) : Nat → List Mark → BlockPlace
  | 0, ms => ⟨[], 0, ms⟩
  | fuel + 1, ms =>
    match dropSpaces indent ms with
    | (_, m :: r) =>
      if isBreak m.char then
        let p := toNextLine indent fuel r
        { p with breaks := breakChar m.char :: p.breaks }
      else ⟨[], (dropSpaces indent ms).1, m :: r⟩
    | (k, []) => ⟨[], k, []⟩

/-- Goes past empty lines to the first line that is not, and takes the deepest column on the way. -/
def toFirstLine : Nat → Nat → List Mark → Nat × BlockPlace
  | column, deepest, [] => (deepest, ⟨[], column, []⟩)
  | column, deepest, m :: r =>
    if m.char = ' ' then toFirstLine (column + 1) (max deepest (column + 1)) r
    else if isBreak m.char then
      let (d, p) := toFirstLine 0 deepest r
      (d, { p with breaks := breakChar m.char :: p.breaks })
    else (deepest, ⟨[], column, m :: r⟩)

def startsBlank : List Mark → Bool
  | [] => false
  | m :: _ => m.char = ' ' || m.char = '\t'

/-- What stands for the break after a line of a block that goes on at `next`. In a folded block a break between
two lines that both begin with no blank is a blank, or nothing if empty lines follow. -/
def lineEnd (folded : Bool) (b : Char) (line : List Mark) (next : BlockPlace) : List Char :=
  if folded && b = '\n' && !startsBlank line && !startsBlank next.rest then
    if next.breaks.isEmpty then [' '] else []
  else [b]

/-- What is left of the breaks at the end of a block. -/
def blockEnd (c : Chomp) (last : List Char) (breaks : List Char) : List Char :=
  match c with
  | .strip => []
  | .clip => last
  | .keep => last ++ breaks

/-- The lines of a block from a place on; `last` is the break before the place, if it is not yet accounted for. -/
def blockLines (folded : Bool) (h : Header) (indent : Nat) : Nat → List Char → BlockPlace → List Char × List Mark
  | 0, last, p => (blockEnd h.chomp last p.breaks, p.rest)
  | fuel + 1, last, p =>
    if p.column = indent && !p.rest.isEmpty then
      let line := p.rest.takeWhile fun m => !isBreak m.char
      let text := p.breaks ++ line.map (·.char)
      match skipLine p.rest with
      | [] => (text ++ blockEnd h.chomp [] [], [])
      | m :: r =>
        let b := breakChar m.char
        let next := toNextLine indent fuel r
        if next.column = indent && !next.rest.isEmpty then
          let (cs, rest) := blockLines folded h indent fuel [b] next
          (text ++ lineEnd folded b line next ++ cs, rest)
        else (text ++ blockEnd h.chomp [b] next.breaks, next.rest)
    else (blockEnd h.chomp last p.breaks, p.rest)

/-- A block scalar after its indicator; `least` is the least column that it may stand at, and no more than `fuel`
characters follow. -/
def block (folded : Bool) (least fuel : Nat) (ms : List Mark) : Except Fault (Text × List Mark) := do
  let (h, lines) ← header ms
  let (indent, place) :=
    match h.increment with
    | some k =>
      let indent := least + k - 1
      (indent, toNextLine indent fuel lines)
    | none =>
      let (deepest, place) := toFirstLine 0 0 lines
      (max least deepest, place)
  let (cs, rest) := blockLines folded h indent fuel [] place
  return (String.ofList cs, rest)

end ExemptZones.Yaml
