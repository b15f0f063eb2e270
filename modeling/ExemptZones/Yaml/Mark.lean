/-
Text with positions, for a format in which columns matter. Each character carries its line and
column, so the rest of a text says by itself where it begins.
-/

namespace ExemptZones.Yaml

/-! ## Characters -/

/-- The characters that end a line. -/
def isBreak (c : Char) : Bool :=
  c = '\n' || c = '\r' || c = '\x85' || c = '\u2028' || c = '\u2029'

/-- The characters that may follow a word. -/
def isGap (c : Char) : Bool :=
  c = ' ' || c = '\t' || isBreak c

/-- What a line break stands for: most are one and the same, two stand for themselves. -/
def breakChar (c : Char) : Char :=
  if c = '\u2028' || c = '\u2029' then c else '\n'

/-- The characters that a document may hold. -/
def isAllowed (c : Char) : Bool :=
  let n := c.toNat
  n = 0x09 || n = 0x0a || n = 0x0d || (0x20 ≤ n && n ≤ 0x7e) || n = 0x85 || (0xa0 ≤ n && n ≤ 0xfffd) ||
    0x10000 ≤ n

/-- The mark that may stand at the start of a text to tell its byte order; it takes no room in a line. -/
def orderMark : Char := '\ufeff'

/-! ## Positions -/

structure Position where
  index : Nat := 0
  line : Nat := 0
  column : Nat := 0
  deriving DecidableEq, Repr

/-- The position after a character. -/
def Position.after (p : Position) (c : Char) : Position :=
  if isBreak c then ⟨p.index + 1, p.line + 1, 0⟩
  else if c = orderMark then { p with index := p.index + 1 }
  else ⟨p.index + 1, p.line, p.column + 1⟩

/-- A character and where it stands. -/
structure Mark where
  char : Char
  pos : Position
  deriving DecidableEq, Repr

/-- A text from a position on. -/
def marks (p : Position) : List Char → List Mark
  | [] => []
  | c :: cs => ⟨c, p⟩ :: marks (p.after c) cs

/-- The position behind a text. -/
def Position.behind (p : Position) (cs : List Char) : Position :=
  cs.foldl Position.after p

/-! ## Looking ahead -/

/-- Whether a text is at its end or goes on with a character that may follow a word. -/
def atGap : List Mark → Bool
  | [] => true
  | m :: _ => isGap m.char

/-- Whether a text is at the end of a line. -/
def atLineEnd : List Mark → Bool
  | [] => true
  | m :: _ => isBreak m.char

def startsWith (c : Char) : List Mark → Bool
  | [] => false
  | m :: _ => m.char = c

/-- Whether three characters `c` stand here as a word. -/
def isTriple (c : Char) : List Mark → Bool
  | x :: y :: z :: r => x.char = c && y.char = c && z.char = c && atGap r
  | _ => false

/-- Whether a line begins here that parts one document from another. -/
def isSeparator (ms : List Mark) : Bool :=
  isTriple '-' ms || isTriple '.' ms

def skipSpaces (ms : List Mark) : List Mark :=
  ms.dropWhile fun m => m.char = ' '

def skipLine (ms : List Mark) : List Mark :=
  ms.dropWhile fun m => !isBreak m.char

end ExemptZones.Yaml
