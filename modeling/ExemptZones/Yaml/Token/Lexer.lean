import ExemptZones.Yaml.Token.Basic

/-
From text to tokens. Outside brackets the column of a token says where blocks begin and end. A key need
not be announced: when a colon comes, what began earlier on the same line turns out to have been one, and
its announcement is put in before it.
-/

namespace ExemptZones.Yaml

/-- The start of what may turn out to be a key. -/
structure Candidate where
  /-- How many tokens come before it. -/
  number : Nat
  pos : Position
  /-- It stands where only a key can. -/
  isRequired : Bool
  deriving DecidableEq, Repr

structure Lexer where
  /-- The tokens so far, the last one first. -/
  tokens : List Token := []
  /-- How many tokens there are. -/
  count : Nat := 0
  /-- The columns of the open blocks, the innermost first. -/
  indents : List Nat := []
  /-- Whether a key may begin here. -/
  keyAllowed : Bool := true
  /-- The candidate outside brackets, if there is one. -/
  outer : Option Candidate := none
  /-- For each open bracket, the innermost first, the candidate inside it. -/
  inner : List (Option Candidate) := []
  deriving DecidableEq, Repr

namespace Lexer

def inFlow (s : Lexer) : Bool :=
  !s.inner.isEmpty

def push (s : Lexer) (t : Token) : Lexer :=
  { s with tokens := t :: s.tokens, count := s.count + 1 }

/-- Puts a token in where `n` come before it. -/
def insert (s : Lexer) (n : Nat) (t : Token) : Lexer :=
  let k := s.count - n
  { s with tokens := s.tokens.take k ++ t :: s.tokens.drop k, count := s.count + 1 }

def candidate (s : Lexer) : Option Candidate :=
  match s.inner with
  | c :: _ => c
  | [] => s.outer

def setCandidate (s : Lexer) (c : Option Candidate) : Lexer :=
  match s.inner with
  | _ :: cs => { s with inner := c :: cs }
  | [] => { s with outer := c }

/-! ## Candidates for keys -/

/-- A candidate is given up on another line, or more than 1024 characters later. -/
def Candidate.isStale (c : Candidate) (p : Position) : Bool :=
  c.pos.line ≠ p.line || p.index - c.pos.index > 1024

def fresh (p : Position) (c : Option Candidate) : Option Candidate :=
  c.filter fun c => !Candidate.isStale c p

def dropStale (p : Position) (s : Lexer) : Except Fault Lexer :=
  match s.outer with
  | some c =>
    if Candidate.isStale c p && c.isRequired then .error .keyWithoutColon
    else .ok { s with outer := fresh p s.outer, inner := s.inner.map (fresh p) }
  | none => .ok { s with inner := s.inner.map (fresh p) }

/-- Gives up the candidate of the innermost bracket. -/
def dropCandidate (s : Lexer) : Except Fault Lexer :=
  match s.candidate with
  | some c => if c.isRequired then .error .keyWithoutColon else .ok (s.setCandidate none)
  | none => .ok s

/-- A token that may be a key, or the start of one, begins at `p`. -/
def saveCandidate (s : Lexer) (p : Position) : Except Fault Lexer :=
  if s.keyAllowed then do
    let s ← s.dropCandidate
    return s.setCandidate (some ⟨s.count, p, !s.inFlow && s.indents.head? = some p.column⟩)
  else .ok s

/-! ## Blocks -/

/-- Ends the blocks that `ended` says, from the innermost out. -/
def endBlocks (ended : Nat → Bool) (s : Lexer) : Lexer :=
  let gone := s.indents.takeWhile ended
  { s with
    indents := s.indents.dropWhile ended
    tokens := gone.map (fun _ => .blockEnd) ++ s.tokens
    count := s.count + gone.length }

/-- Ends the blocks that stand further in than a column. -/
def unwind (s : Lexer) (column : Nat) : Lexer :=
  if s.inFlow then s else s.endBlocks (column < ·)

/-- Ends all blocks. -/
def unwindAll (s : Lexer) : Lexer :=
  if s.inFlow then s else s.endBlocks fun _ => true

/-- Whether a block at this column is new. -/
def opensBlock (s : Lexer) (column : Nat) : Bool :=
  match s.indents with
  | i :: _ => i < column
  | [] => true

/-- Opens a block at a column, unless one is open there. Its start goes where `n` tokens come before. -/
def openBlock (s : Lexer) (column n : Nat) (t : Token) : Lexer :=
  if s.opensBlock column then { s.insert n t with indents := column :: s.indents } else s

/-! ## Tokens, each with what it means for the next one -/

def document (t : Token) (s : Lexer) : Except Fault Lexer := do
  let s ← s.unwindAll.dropCandidate
  return { s.push t with keyAllowed := false }

def openFlow (t : Token) (p : Position) (s : Lexer) : Except Fault Lexer := do
  let s ← s.saveCandidate p
  return { s.push t with inner := none :: s.inner, keyAllowed := true }

def closeFlow (t : Token) (s : Lexer) : Except Fault Lexer :=
  match s.inner with
  | [] => .error .unexpected
  | _ :: cs => .ok { s.push t with inner := cs, keyAllowed := false }

def flowEntry (s : Lexer) : Except Fault Lexer := do
  let s ← s.dropCandidate
  return { s.push .flowEntry with keyAllowed := true }

def blockEntry (p : Position) (s : Lexer) : Except Fault Lexer := do
  if !s.inFlow && !s.keyAllowed then throw .entryNotAllowed
  let s := if s.inFlow then s else s.openBlock p.column s.count .blockListStart
  let s ← s.dropCandidate
  return { s.push .blockEntry with keyAllowed := true }

def key (p : Position) (s : Lexer) : Except Fault Lexer := do
  if !s.inFlow && !s.keyAllowed then throw .keyNotAllowed
  let s := if s.inFlow then s else s.openBlock p.column s.count .blockMapStart
  let s ← s.dropCandidate
  return { s.push .key with keyAllowed := !s.inFlow }

/-- A colon: either the candidate turns out to be a key, or the key was announced. -/
def value (p : Position) (s : Lexer) : Except Fault Lexer :=
  match s.candidate with
  | some c =>
    let s := (s.setCandidate none).insert c.number .key
    let s := if s.inFlow then s else s.openBlock c.pos.column c.number .blockMapStart
    .ok { s.push .value with keyAllowed := false }
  | none => do
    if !s.inFlow && !s.keyAllowed then throw .valueNotAllowed
    let s := if s.inFlow then s else s.openBlock p.column s.count .blockMapStart
    return { s.push .value with keyAllowed := !s.inFlow }

/-- A token that can be a key: an alias, a scalar on one line, or what stands before one. -/
def atom (t : Token) (p : Position) (s : Lexer) : Except Fault Lexer := do
  let s ← s.saveCandidate p
  return { s.push t with keyAllowed := false }

/-- A block scalar is no key, but a key may follow it. -/
def blockScalar (t : Token) (s : Lexer) : Except Fault Lexer := do
  let s ← s.dropCandidate
  return { s.push t with keyAllowed := true }

/-- The least column of what belongs to the innermost block. -/
def least (s : Lexer) : Nat :=
  match s.indents with
  | i :: _ => i + 1
  | [] => 0

/-! ## One token after another -/

/-- Goes past blanks, comments and line breaks. After a break outside brackets a key may begin. -/
def skip (comment : Bool) : Lexer → List Mark → Lexer × List Mark
  | s, [] => (s, [])
  | s, m :: r =>
    if isBreak m.char then skip false (if s.inFlow then s else { s with keyAllowed := true }) r
    else if comment || m.char = ' ' then skip comment s r
    else if m.char = '#' then skip true s r
    else (s, m :: r)

/-- Whether a plain scalar begins with this character; `r` follows it. -/
def beginsPlain (flow : Bool) (c : Char) (r : List Mark) : Bool :=
  !(isGap c || "-?:,[]\x7b\x7d#&*!|>'\"%@\x60".toList.contains c) ||
    (!atGap r && (c = '-' || (!flow && (c = '?' || c = ':'))))

/-- The token that begins with `m`; no more than `fuel` characters follow it. -/
def token (fuel : Nat) (m : Mark) (r : List Mark) (s : Lexer) : Except Fault (Lexer × List Mark) :=
  let p := m.pos
  let c := m.char
  let before (rest : List Mark) (s : Except Fault Lexer) : Except Fault (Lexer × List Mark) := s.map (·, rest)
  if c = '%' && p.column = 0 then do
    let (t, rest) ← directive fuel r
    before rest (s.document t)
  else if p.column = 0 && isTriple '-' (m :: r) then before (r.drop 2) (s.document .documentStart)
  else if p.column = 0 && isTriple '.' (m :: r) then before (r.drop 2) (s.document .documentEnd)
  else if c = '[' then before r (s.openFlow .flowListStart p)
  else if c = '\x7b' then before r (s.openFlow .flowMapStart p)
  else if c = ']' then before r (s.closeFlow .flowListEnd)
  else if c = '\x7d' then before r (s.closeFlow .flowMapEnd)
  else if c = ',' then before r s.flowEntry
  else if c = '-' && atGap r then before r (s.blockEntry p)
  else if c = '?' && (s.inFlow || atGap r) then before r (s.key p)
  else if c = ':' && (s.inFlow || atGap r) then before r (s.value p)
  else if c = '*' then do
    let (n, rest) ← anchorName r
    before rest (s.atom (.alias n) p)
  else if c = '&' then do
    let (n, rest) ← anchorName r
    before rest (s.atom (.anchor n) p)
  else if c = '!' then do
    let (t, rest) ← tag fuel r
    before rest (s.atom t p)
  else if (c = '|' || c = '>') && !s.inFlow then do
    let (t, rest) ← block (c = '>') (max 1 s.least) fuel r
    before rest (s.blockScalar (.scalar t false))
  else if c = '\'' then do
    let (t, rest) ← single r
    before rest (s.atom (.scalar t false) p)
  else if c = '"' then do
    let (t, rest) ← double r
    before rest (s.atom (.scalar t false) p)
  else if beginsPlain s.inFlow c r then
    let (t, rest) := plain s.inFlow s.least (fuel + 1) (m :: r)
    before rest (s.atom (.scalar (.plain t) true) p)
  else .error .noToken

/-- The tokens of a text, from a state on. -/
def run : Nat → Lexer → List Mark → Except Fault (List Token)
  | 0, _, _ => .error .unfinished
  | fuel + 1, s, ms => do
    match skip false s ms with
    | (s, []) =>
      let s ← s.unwindAll.dropCandidate
      match s.outer with
      | some c => if c.isRequired then throw .keyWithoutColon
      | none => pure ()
      return s.tokens.reverse
    | (s, m :: r) =>
      let s ← s.dropStale m.pos
      let (s, rest) ← (s.unwind m.pos.column).token fuel m r
      run fuel s rest

end Lexer

/-- The tokens of a text. An order mark at its start does not count. -/
def tokens (cs : List Char) : Except Fault (List Token) :=
  if cs.all isAllowed then
    let ms := marks {} cs
    Lexer.run ms.length.succ {} (if startsWith orderMark ms then ms.drop 1 else ms)
  else .error .unprintable

end ExemptZones.Yaml
