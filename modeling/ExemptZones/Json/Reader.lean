import ExemptZones.Decimal.Shortest
import ExemptZones.Value.Basic

/-
Reading JSON. Every step answers a value and the rest of the text, and the whole text must be used
up. `NaN`, `Infinity` and `-Infinity` count as numbers; a number with a point or an exponent is a
`float`. Of two members of one name the later counts, in the place of the first.

A text may name half of a surrogate pair by its code. The `Halves` that a reader is given say
whether this spoils the document or only the text.
-/

namespace ExemptZones.Json

open Text (Piece)

/-- What is done with half of a surrogate pair. -/
inductive Halves where
  | refused
  | kept
  deriving DecidableEq

def isSpace (c : Char) : Bool :=
  c = ' ' || c = '\n' || c = '\t' || c = '\r'

def skip (cs : List Char) : List Char :=
  cs.dropWhile isSpace

/-! ## Texts -/

def hexValue? (c : Char) : Option Nat :=
  if '0' ≤ c ∧ c ≤ '9' then some (c.toNat - 48)
  else if 'a' ≤ c ∧ c ≤ 'f' then some (c.toNat - 87)
  else if 'A' ≤ c ∧ c ≤ 'F' then some (c.toNat - 55)
  else none

def unit? (a b c d : Char) : Option Nat := do
  return 4096 * (← hexValue? a) + 256 * (← hexValue? b) + 16 * (← hexValue? c) + (← hexValue? d)

def isHigh (n : Nat) : Bool := 0xd800 ≤ n && n ≤ 0xdbff

def isLow (n : Nat) : Bool := 0xdc00 ≤ n && n ≤ 0xdfff

def escapes : List (Char × Char) :=
  [('"', '"'), ('\\', '\\'), ('/', '/'), ('b', '\x08'), ('f', '\x0c'), ('n', '\n'), ('r', '\r'), ('t', '\t')]

/-- The pieces of a text after its opening quote. -/
def readText : List Char → Option (List Piece × List Char)
  | [] => none
  | '"' :: r => some ([], r)
  | '\\' :: 'u' :: a :: b :: c :: d :: r => do
    let n ← unit? a b c d
    let (ps, rest) ← readText r
    return ((if isHigh n || isLow n then .half n else .char (Char.ofNat n)) :: ps, rest)
  | '\\' :: c :: r => do
    let d ← escapes.lookup c
    let (ps, rest) ← readText r
    return (.char d :: ps, rest)
  | c :: r =>
    if c.toNat < 0x20 then none
    else do
      let (ps, rest) ← readText r
      return (.char c :: ps, rest)

/-- The character that two halves stand for. -/
def pairChar (high low : Nat) : Char :=
  Char.ofNat (0x10000 + (high - 0xd800) * 1024 + (low - 0xdc00))

/-- The characters of a text, unless a half stands alone. -/
def join? : List Piece → Option (List Char)
  | [] => some []
  | .char c :: ps => (join? ps).map (c :: ·)
  | .half n :: .half m :: ps =>
    if isHigh n && isLow m then
      (join? ps).map (pairChar n m :: ·)
    else none
  | .half _ :: _ => none

/-- The pieces of a text with every pair in it as the character that it stands for. -/
def merge : List Piece → List Piece
  | [] => []
  | .half n :: .half m :: ps =>
    if isHigh n && isLow m then .char (pairChar n m) :: merge ps else .half n :: merge (.half m :: ps)
  | p :: ps => p :: merge ps

/-- The value of a text under the reader's rule for halves. -/
def textValue? (h : Halves) (ps : List Piece) : Option Value :=
  match join? ps with
  | some cs => some (.text (String.ofList cs))
  | none => if h = .kept then some (.ofText (.ofPieces (merge ps))) else none

/-! ## Numbers -/

def digitsValue (ds : List Char) : Nat :=
  ds.foldl (fun n c => 10 * n + (c.toNat - 48)) 0

/-- Digits, at least one. -/
def digits? (cs : List Char) : Option (List Char × List Char) :=
  let ds := cs.takeWhile Char.isDigit
  if ds.isEmpty then none else some (ds, cs.dropWhile Char.isDigit)

/-- The whole part: a zero, or digits that do not start with one. -/
def whole? : List Char → Option (List Char × List Char)
  | '0' :: r => some (['0'], r)
  | cs => digits? cs

/-- The digits after a point, if there is one. -/
def fraction? : List Char → Option (Option (List Char) × List Char)
  | '.' :: r => (digits? r).map fun (ds, rest) => (some ds, rest)
  | cs => some (none, cs)

/-- An exponent, if there is one. -/
def exponent? : List Char → Option (Option Int × List Char)
  | c :: r =>
    if c = 'e' || c = 'E' then
      match r with
      | '-' :: r => (digits? r).map fun (ds, rest) => (some (-Int.ofNat (digitsValue ds)), rest)
      | '+' :: r => (digits? r).map fun (ds, rest) => (some (Int.ofNat (digitsValue ds)), rest)
      | r => (digits? r).map fun (ds, rest) => (some (Int.ofNat (digitsValue ds)), rest)
    else some (none, c :: r)
  | [] => some (none, [])

/-- A number without its sign. -/
def readMagnitude (negative : Bool) (cs : List Char) : Option (Value × List Char) := do
  let (whole, cs) ← whole? cs
  let (frac, cs) ← fraction? cs
  let (exp, cs) ← exponent? cs
  match frac, exp with
  | none, none =>
    let n := Int.ofNat (digitsValue whole)
    return (.int (if negative then -n else n), cs)
  | _, _ =>
    let ds := frac.getD []
    let x := Decimal.toFloat (digitsValue (whole ++ ds)) (exp.getD 0 - ds.length)
    return (.float (if negative then -x else x), cs)

/-! ## Values -/

/-- A constant spelled out in letters. -/
def readWord (cs : List Char) : Option (Value × List Char) :=
  let words : List (String × Value) :=
    [("null", .null), ("true", .bool true), ("false", .bool false), ("NaN", .float (0.0 / 0.0)),
      ("Infinity", .float (1.0 / 0.0)), ("-Infinity", .float (-1.0 / 0.0))]
  words.findSome? fun (w, v) => if w.toList.isPrefixOf cs then some (v, cs.drop w.length) else none

/-- Puts a member into an object: in the place of one of its name, else at the end. -/
def put (k v : Value) : List (Value × Value) → List (Value × Value)
  | [] => [(k, v)]
  | (k', v') :: es =>
    match k, k' with
    | .text s, .text t => if s = t then (k', v) :: es else (k', v') :: put k v es
    | .broken a, .broken b => if a = b then (k', v) :: es else (k', v') :: put k v es
    | _, _ => (k', v') :: put k v es

mutual

/-- A value, which starts with the first character. -/
def readValue (h : Halves) : Nat → List Char → Option (Value × List Char)
  | 0, _ => none
  | fuel + 1, cs =>
    match cs with
    | '"' :: r => do
      let (ps, rest) ← readText r
      return (← textValue? h ps, rest)
    | '[' :: r =>
      match skip r with
      | ']' :: rest => some (.list [], rest)
      | r => do
        let (items, rest) ← readItems h fuel r
        return (.list items, rest)
    | '\x7b' :: r =>
      match skip r with
      | '\x7d' :: rest => some (.map [], rest)
      | r => do
        let (entries, rest) ← readMembers h fuel [] r
        return (.map entries, rest)
    | '-' :: r =>
      match readMagnitude true r with
      | some answer => some answer
      | none => readWord cs
    | cs =>
      match readMagnitude false cs with
      | some answer => some answer
      | none => readWord cs

/-- The items of a list up to its end; there is one at least. -/
def readItems (h : Halves) : Nat → List Char → Option (List Value × List Char)
  | 0, _ => none
  | fuel + 1, cs => do
    let (v, r) ← readValue h fuel cs
    match skip r with
    | ',' :: r =>
      let (vs, rest) ← readItems h fuel (skip r)
      return (v :: vs, rest)
    | ']' :: rest => return ([v], rest)
    | _ => none

/-- The members of an object up to its end, put after those in `acc`; there is one at least. -/
def readMembers (h : Halves) : Nat → List (Value × Value) → List Char →
    Option (List (Value × Value) × List Char)
  | 0, _, _ => none
  | fuel + 1, acc, cs =>
    match cs with
    | '"' :: r => do
      let (ps, r) ← readText r
      let k ← textValue? h ps
      match skip r with
      | ':' :: r =>
        let (v, r) ← readValue h fuel (skip r)
        let acc := put k v acc
        match skip r with
        | ',' :: r => readMembers h fuel acc (skip r)
        | '\x7d' :: rest => return (acc, rest)
        | _ => none
      | _ => none
    | _ => none

end

/-- The value of a whole text. -/
def read (h : Halves) (s : String) : Option Value :=
  let cs := skip s.toList
  match readValue h (2 * cs.length + 2) cs with
  | some (v, rest) => if (skip rest).isEmpty then some v else none
  | none => none

end ExemptZones.Json
