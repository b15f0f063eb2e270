/-
What a plain scalar is, by its spelling alone: a flag, an integer, a float, a date, nothing, or else a
text. The tests are tried in this order, so what one accepts the next does not see.
-/

namespace ExemptZones.Yaml

/-- The kinds of value that a plain scalar may spell. -/
inductive Kind where
  | flag
  | float
  | integer
  | merge
  | null
  | date
  /-- The sign that stands for the value of a whole map. -/
  | default
  /-- A sign that stands for itself. -/
  | indicator
  | text
  deriving DecidableEq, Repr

def flagWords : List String :=
  ["yes", "Yes", "YES", "no", "No", "NO", "true", "True", "TRUE", "false", "False", "FALSE", "on", "On", "ON", "off",
    "Off", "OFF"]

def nullWords : List String :=
  ["", "~", "null", "Null", "NULL"]

/-! ## Numbers -/

def dropSign : List Char → List Char
  | '+' :: cs => cs
  | '-' :: cs => cs
  | cs => cs

def isDigitOrLine (c : Char) : Bool :=
  c.isDigit || c = '_'

/-- Digits and `_`, a digit first. -/
def isDigits : List Char → Bool
  | [] => false
  | c :: cs => c.isDigit && cs.all isDigitOrLine

/-- The parts of a text between colons. -/
def parts : List Char → List (List Char)
  | [] => [[]]
  | c :: cs =>
    match parts cs with
    | [] => [[c]]
    | p :: ps => if c = ':' then [] :: p :: ps else (c :: p) :: ps

/-- A number below sixty: one digit, or two of which the first is at most five. -/
def isSixtieth : List Char → Bool
  | [c] => c.isDigit
  | [c, d] => '0' ≤ c && c ≤ '5' && d.isDigit
  | _ => false

def isBinaryDigit (c : Char) : Bool := c = '0' || c = '1' || c = '_'

def isOctalDigit (c : Char) : Bool := ('0' ≤ c && c ≤ '7') || c = '_'

def isHexDigit (c : Char) : Bool :=
  c.isDigit || ('a' ≤ c && c ≤ 'f') || ('A' ≤ c && c ≤ 'F') || c = '_'

/-- Whether a text spells an integer: in base two, eight, ten, sixteen or, with colons, sixty. -/
def isInteger (cs : List Char) : Bool :=
  match dropSign cs with
  | '0' :: 'b' :: r => !r.isEmpty && r.all isBinaryDigit
  | '0' :: 'x' :: r => !r.isEmpty && r.all isHexDigit
  | '0' :: r => r.all isOctalDigit
  | ds =>
    match parts ds with
    | p :: ps => isDigits p && ps.all isSixtieth
    | [] => false

/-- An exponent with its sign, or nothing. -/
def isExponent : List Char → Bool
  | [] => true
  | c :: s :: ds => (c = 'e' || c = 'E') && (s = '+' || s = '-') && !ds.isEmpty && ds.all Char.isDigit
  | _ => false

/-- What may follow the point of a float. -/
def isFraction (cs : List Char) : Bool :=
  isExponent (cs.dropWhile isDigitOrLine)

/-- The text before the first point and the text after it. -/
def splitPoint : List Char → Option (List Char × List Char)
  | [] => none
  | c :: cs => if c = '.' then some ([], cs) else (splitPoint cs).map fun (a, b) => (c :: a, b)

/-- Whether a text spells a float: it has a point, and an exponent has a sign. -/
def isFloat (cs : List Char) : Bool :=
  [".inf", ".Inf", ".INF"].contains (String.ofList (dropSign cs)) ||
    [".nan", ".NaN", ".NAN"].contains (String.ofList cs) ||
    match splitPoint cs with
    | none => false
    | some ([], c :: r) => c.isDigit && isFraction r
    | some ([], []) => false
    | some (whole, r) =>
      match parts (dropSign whole) with
      | [p] => isDigits p && isFraction r
      | p :: ps => isDigits p && ps.all isSixtieth && r.all isDigitOrLine
      | [] => false

/-! ## Dates -/

/-- A date as it is spelled; the time and the zone may be missing. -/
structure Stamp where
  year : Nat
  month : Nat
  day : Nat
  /-- Hour, minute and second, and the digits after the point. -/
  time : Option (Nat × Nat × Nat × List Char)
  /-- Minutes east, if a zone is given. -/
  zone : Option Int
  deriving DecidableEq, Repr

def number (ds : List Char) : Nat :=
  ds.foldl (fun n c => 10 * n + (c.toNat - 48)) 0

/-- Reads `n` digits. -/
def digits? (n : Nat) (cs : List Char) : Option (Nat × List Char) :=
  let ds := cs.take n
  if ds.length = n && ds.all Char.isDigit then some (number ds, cs.drop n) else none

/-- Reads two digits, or one. -/
def oneOrTwo? (cs : List Char) : Option (Nat × List Char) :=
  match digits? 2 cs with
  | some x => some x
  | none => digits? 1 cs

def expect? (c : Char) : List Char → Option (List Char)
  | [] => none
  | d :: cs => if d = c then some cs else none

def isBlank (c : Char) : Bool := c = ' ' || c = '\t'

/-- The zone of a time, up to the end. -/
def zone? (cs : List Char) : Option (Option Int) :=
  match cs.dropWhile isBlank with
  | [] => if cs.isEmpty then some none else none
  | ['Z'] => some (some 0)
  | c :: r =>
    if c = '+' || c = '-' then do
      let (h, r) ← oneOrTwo? r
      let m ← match r with
        | [] => some 0
        | _ => do
          let (m, r) ← digits? 2 (← expect? ':' r)
          if r.isEmpty then some m else none
      let offset := Int.ofNat (60 * h + m)
      return some (if c = '-' then -offset else offset)
    else none

/-- What may stand between a date and a time. -/
def betweenDateAndTime? (cs : List Char) : Option (List Char) :=
  match cs with
  | 'T' :: r => some r
  | 't' :: r => some r
  | c :: r => if isBlank c then some (r.dropWhile isBlank) else none
  | [] => none

/-- The parts of a date. -/
def stamp? (cs : List Char) : Option Stamp := do
  let (year, cs) ← digits? 4 cs
  let (month, cs) ← oneOrTwo? (← expect? '-' cs)
  let (day, cs) ← oneOrTwo? (← expect? '-' cs)
  match cs with
  | [] => return ⟨year, month, day, none, none⟩
  | cs =>
    let (hour, cs) ← oneOrTwo? (← betweenDateAndTime? cs)
    let (minute, cs) ← digits? 2 (← expect? ':' cs)
    let (second, cs) ← digits? 2 (← expect? ':' cs)
    let (fraction, cs) := match cs with
      | '.' :: r => (r.takeWhile Char.isDigit, r.dropWhile Char.isDigit)
      | cs => ([], cs)
    return ⟨year, month, day, some (hour, minute, second, fraction), ← zone? cs⟩

/-- Whether a text is taken for a date. Without a time, month and day need two digits each. -/
def isDate (cs : List Char) : Bool :=
  match stamp? cs with
  | some s => s.time.isSome || cs.length = 10
  | none => false

/-! ## Kinds -/

def Kind.ofText (s : String) : Kind :=
  let cs := s.toList
  if flagWords.contains s then .flag
  else if isFloat cs then .float
  else if isInteger cs then .integer
  else if s = "<<" then .merge
  else if nullWords.contains s then .null
  else if isDate cs then .date
  else if s = "=" then .default
  else if s = "!" || s = "&" || s = "*" then .indicator
  else .text

end ExemptZones.Yaml
