import ExemptZones.Text.Quoted
import ExemptZones.Value.Shown
import ExemptZones.Yaml.Kind
import ExemptZones.Yaml.Mark

/-
Writing documents in block style. A text is plain when its spelling says that it is a text and nothing in it
could be taken for something else; it stands between single quotes when no character needs a code, and
between double quotes otherwise. A text that runs past column 80 goes on in the next line where a single
blank stands.
-/

namespace ExemptZones.Yaml.Writer

/-- The column past which a line is broken. -/
def width : Nat := 80

/-! ## What a text is like -/

/-- A character that can stand for itself. -/
def isOrdinary (c : Char) : Bool :=
  c = '\n' || (0x20 ≤ c.toNat && c.toNat ≤ 0x7e)

/-- Whether two characters with certain properties follow each other anywhere. -/
def hasPair (p q : Char → Bool) : List Char → Bool
  | a :: b :: r => (p a && q b) || hasPair p q (b :: r)
  | _ => false

/-- Whether a text begins like something that is no plain text. -/
def startsAsMark : List Char → Bool
  | [] => false
  | c :: r =>
    let alone := match r with | [] => true | d :: _ => isGap d || d = '\x00'
    "#,[]\x7b\x7d&*!|>'\"%@\x60".toList.contains c || ((c = '?' || c = ':' || c = '-') && alone) ||
      ['-', '-', '-'].isPrefixOf (c :: r) || ['.', '.', '.'].isPrefixOf (c :: r)

/-- Whether something after the first character would end a plain text: a colon before a blank, or a comment. -/
def hasMarkInside (cs : List Char) : Bool :=
  let gap c := isGap c || c = '\x00'
  hasPair (· = ':') gap (cs.drop 1) || (cs.length > 1 && cs.getLast? = some ':') || hasPair gap (· = '#') cs

def isEdge (c : Char) : Bool := c = ' ' || c = '\n'

/-- Whether a text can be plain. -/
def allowsPlain (s : String) : Bool :=
  let cs := s.toList
  Kind.ofText s = .text && cs.all isOrdinary && !cs.contains '\n' && !(cs.head?.any isEdge) &&
    !(cs.getLast?.any isEdge) && !startsAsMark cs && !hasMarkInside cs

/-- Whether a text can stand between single quotes: every character stands for itself, and no blank is next to a
line break. -/
def allowsSingle (s : String) : Bool :=
  let cs := s.toList
  cs.all isOrdinary && !hasPair (· = ' ') (· = '\n') cs && !hasPair (· = '\n') (· = ' ') cs

/-! ## The three styles -/

/-- A new line, and blanks up to a column. -/
def newLine (indent : Nat) : List Char :=
  '\n' :: List.replicate indent ' '

/-- Whether the line can be broken at a blank before `r`: it is past the width, and the blank is a single one
inside the text. -/
def breaksAt (barred : Bool) (column : Nat) (r : List Char) : Bool :=
  !barred && column > width && (match r with | c :: _ => c ≠ ' ' | [] => false)

/-- A plain text from a column on. No line is broken after a blank, which `barred` says. -/
def plainFrom (indent column : Nat) (barred : Bool) : List Char → List Char
  | [] => []
  | c :: r =>
    if c = ' ' then
      if breaksAt barred column r then newLine indent ++ plainFrom indent indent true r
      else ' ' :: plainFrom indent (column + 1) true r
    else c :: plainFrom indent (column + 1) false r

/-- The character before the next one, as far as it matters. -/
inductive Before where
  /-- The text begins here, or a blank. -/
  | barred
  | lineBreak
  | other
  deriving DecidableEq, Repr

/-- A text between single quotes from a column on. A line break is written as one more than there are. -/
def singleFrom (indent column : Nat) (before : Before) : List Char → List Char
  | [] => ['\'']
  | c :: r =>
    if c = ' ' then
      if breaksAt (before = .barred) column r then newLine indent ++ singleFrom indent indent .barred r
      else ' ' :: singleFrom indent (column + 1) .barred r
    else if c = '\n' then
      (if before = .lineBreak then ['\n'] else ['\n', '\n']) ++
        (if r.head? = some '\n' then [] else List.replicate indent ' ') ++ singleFrom indent indent .lineBreak r
    else if c = '\'' then '\'' :: '\'' :: singleFrom indent (column + 2) .other r
    else c :: singleFrom indent (column + 1) .other r

/-- Characters that have a short code. -/
def shortCodes : List (Char × Char) :=
  [('\x00', '0'), ('\x07', 'a'), ('\x08', 'b'), ('\t', 't'), ('\n', 'n'), ('\x0b', 'v'), ('\x0c', 'f'), ('\r', 'r'),
    ('\x1b', 'e'), ('"', '"'), ('\\', '\\'), ('\x85', 'N'), ('\xa0', '_'), ('\u2028', 'L'), ('\u2029', 'P')]

def upperHex (n width : Nat) : List Char :=
  (Text.hexDigits width n).map Char.toUpper

/-- The code of a character. -/
def code (c : Char) : List Char :=
  match shortCodes.lookup c with
  | some d => ['\\', d]
  | none =>
    let n := c.toNat
    if n ≤ 0xff then '\\' :: 'x' :: upperHex n 2
    else if n ≤ 0xffff then '\\' :: 'u' :: upperHex n 4
    else '\\' :: 'U' :: upperHex n 8

def needsCode (c : Char) : Bool :=
  c = '"' || c = '\\' || !(0x20 ≤ c.toNat && c.toNat ≤ 0x7e)

/-- A broken line of a text between double quotes. A blank that comes next is kept by a backslash. -/
def joint (indent : Nat) (r : List Char) : List Char :=
  '\\' :: newLine indent ++ (if r.head? = some ' ' then ['\\'] else [])

/-- The column after a joint. -/
def afterJoint (indent : Nat) (r : List Char) : Nat :=
  if r.head? = some ' ' then indent + 1 else indent

/-- A text between double quotes from a column on; `first` says that nothing stands before, `coded` that a code
does. A line is broken after a code, or before a blank or what follows a code. -/
def doubleFrom (indent column : Nat) (first coded : Bool) : List Char → List Char
  | [] => ['"']
  | c :: r =>
    let inside := !first && !r.isEmpty
    if needsCode c then
      let cs := code c
      let column := column + cs.length
      if inside && column - 1 > width then
        cs ++ joint indent r ++ doubleFrom indent (afterJoint indent r) false true r
      else cs ++ doubleFrom indent column false true r
    else if inside && (c = ' ' || coded) && column > width then
      joint indent (c :: r) ++ c :: doubleFrom indent (afterJoint indent (c :: r) + 1) false false r
    else c :: doubleFrom indent (column + 1) false false r

/-- A text that begins at a column and goes on at `indent` in further lines. -/
def text (indent column : Nat) (s : String) : List Char :=
  if allowsPlain s then plainFrom indent column true s.toList
  else if allowsSingle s then '\'' :: singleFrom indent (column + 1) .barred s.toList
  else '"' :: doubleFrom indent (column + 1) true false s.toList

/-! ## Lists and maps -/

/-- A value on one line, or a text, after a blank. -/
def inline (indent column : Nat) : Value → List Char
  | .text s => text indent column s
  | .bool true => "true".toList
  | .bool false => "false".toList
  | .null => "null".toList
  | .list _ => ['[', ']']
  | .map _ => ['\x7b', '\x7d']
  | v => v.plain.toList

def blanks (n : Nat) : List Char :=
  List.replicate n ' '

mutual

/-- The items of a list at a column, each on lines of its own. What an item holds stands two columns further in,
its beginning on the line of the dash. -/
def items (indent : Nat) : List Value → List Char
  | [] => []
  | v :: vs => item indent v ++ items indent vs

def item (indent : Nat) : Value → List Char
  | .list (v :: vs) => blanks indent ++ '-' :: ' ' :: (items (indent + 2) (v :: vs)).drop (indent + 2)
  | .map (e :: es) => blanks indent ++ '-' :: ' ' :: (entries (indent + 2) (e :: es)).drop (indent + 2)
  | v => blanks indent ++ '-' :: ' ' :: inline (indent + 2) (indent + 2) v ++ ['\n']

/-- The entries of a map at a column. A list stands at the column of its key, a map two further in. -/
def entries (indent : Nat) : List (Value × Value) → List Char
  | [] => []
  | (k, v) :: es => blanks indent ++ k.plain.toList ++ ':' :: underKey indent k.plain.length v ++ entries indent es

/-- What follows a key of some length and its colon. -/
def underKey (indent length : Nat) : Value → List Char
  | .list (v :: vs) => '\n' :: items indent (v :: vs)
  | .map (e :: es) => '\n' :: entries (indent + 2) (e :: es)
  | v => ' ' :: inline (indent + 2) (indent + length + 2) v ++ ['\n']

end

/-- A document that holds a map with plain keys. -/
def document : Value → List Char
  | .map (e :: es) => entries 0 (e :: es)
  | .list (v :: vs) => items 0 (v :: vs)
  | v => inline 2 0 v ++ ['\n']

end Writer

def write (v : Value) : String :=
  String.ofList (Writer.document v)

end ExemptZones.Yaml
