import ExemptZones.Yaml.Scalar

/-
Tokens: what a document is made of once its characters are read. Where blocks begin and end by their
columns, tokens say so.
-/

namespace ExemptZones.Yaml

inductive Token where
  | version (major : Nat)
  | handle (name lead : String)
  /-- A directive that has no effect. -/
  | otherDirective
  | documentStart
  | documentEnd
  | blockListStart
  | blockMapStart
  | blockEnd
  | flowListStart
  | flowListEnd
  | flowMapStart
  | flowMapEnd
  | blockEntry
  | flowEntry
  | key
  | value
  | alias (name : String)
  | anchor (name : String)
  | tag (handle : Option String) (suffix : String)
  | scalar (content : Text) (plain : Bool)
  deriving DecidableEq, Repr

/-! ## Names -/

def isNameChar (c : Char) : Bool :=
  c.isAlphanum || c = '-' || c = '_'

/-- A name of at least one character. -/
def name (ms : List Mark) : Except Fault (String × List Mark) :=
  let cs := ms.takeWhile fun m => isNameChar m.char
  if cs.isEmpty then .error .badName
  else .ok (String.ofList (cs.map (·.char)), ms.dropWhile fun m => isNameChar m.char)

/-- The characters that may follow the name of an anchor. -/
def endsAnchor : List Mark → Bool
  | [] => true
  | m :: _ => isGap m.char || "?:,]\x7d%@\x60".toList.contains m.char

/-- The name of an anchor or an alias after its indicator. -/
def anchorName (ms : List Mark) : Except Fault (String × List Mark) := do
  let (n, rest) ← name ms
  if endsAnchor rest then .ok (n, rest) else .error .badName

/-! ## Tags -/

def isUriChar (c : Char) : Bool :=
  c.isAlphanum || "-;/?:@&=+$,_.!~*'()[]".toList.contains c

/-- The bytes of codes `%xx` that follow each other. -/
def uriCodes : List Mark → Except Fault (Bytes × List Mark)
  | [] => .ok ([], [])
  | m :: r =>
    if m.char = '%' then
      match r with
      | a :: b :: r =>
        match hexNumber? [a.char, b.char] with
        | some n => (uriCodes r).map fun (bs, rest) => (UInt8.ofNat n :: bs, rest)
        | none => .error .badTag
      | _ => .error .badTag
    else .ok ([], m :: r)

/-- The text of a tag, of at most `fuel` parts; codes in it are bytes of UTF-8. -/
def uriFrom : Nat → List Mark → Except Fault (String × List Mark)
  | 0, ms => .ok ("", ms)
  | fuel + 1, ms =>
    match ms with
    | [] => .ok ("", [])
    | m :: r =>
      if isUriChar m.char then
        (uriFrom fuel r).map fun (s, rest) => (String.ofList [m.char] ++ s, rest)
      else if m.char = '%' then do
        let (bs, rest) ← uriCodes ms
        match Utf8.decode? bs with
        | none => .error .badTag
        | some t =>
          let (s, rest) ← uriFrom fuel rest
          return (t ++ s, rest)
      else .ok ("", ms)

def uri (fuel : Nat) (ms : List Mark) : Except Fault (String × List Mark) := do
  let (s, rest) ← uriFrom fuel ms
  if s.isEmpty then .error .badTag else .ok (s, rest)

/-- A tag handle: `!`, or a name between two of them. -/
def tagHandle (ms : List Mark) : Except Fault (String × List Mark) :=
  match ms with
  | [] => .error .badTag
  | m :: r =>
    if m.char ≠ '!' then .error .badTag
    else if startsWith ' ' r then .ok ("!", r)
    else
      let cs := r.takeWhile fun m => isNameChar m.char
      match r.dropWhile fun m => isNameChar m.char with
      | [] => .error .badTag
      | n :: rest =>
        if n.char = '!' then .ok (String.ofList ('!' :: cs.map (·.char) ++ ['!']), rest) else .error .badTag

/-- Whether a second `!` stands in the word that begins here. -/
def hasHandle (ms : List Mark) : Bool :=
  (ms.takeWhile fun m => !(m.char = ' ' || isBreak m.char)).any fun m => m.char = '!'

/-- A tag after its `!`. -/
def tag (fuel : Nat) (ms : List Mark) : Except Fault (Token × List Mark) := do
  let (t, rest) ← tagText ms
  if atLineEnd rest || startsWith ' ' rest then .ok (t, rest) else .error .badTag
where
  tagText (ms : List Mark) : Except Fault (Token × List Mark) :=
    match ms with
    | [] => .ok (.tag none "!", [])
    | m :: r =>
      if m.char = '<' then do
        let (s, rest) ← uri fuel r
        match rest with
        | n :: rest => if n.char = '>' then .ok (.tag none s, rest) else .error .badTag
        | [] => .error .badTag
      else if isGap m.char then .ok (.tag none "!", m :: r)
      else if hasHandle ms then do
        let (h, rest) ← tagHandle (⟨'!', m.pos⟩ :: ms)
        let (s, rest) ← uri fuel rest
        return (.tag (some h) s, rest)
      else do
        let (s, rest) ← uri fuel ms
        return (.tag (some "!") s, rest)

/-! ## Directives -/

def directiveNumber (ms : List Mark) : Except Fault (Nat × List Mark) :=
  let ds := ms.takeWhile fun m => m.char.isDigit
  if ds.isEmpty then .error .badDirective
  else .ok (ds.foldl (fun n m => 10 * n + (m.char.toNat - 48)) 0, ms.dropWhile fun m => m.char.isDigit)

def versionDirective (ms : List Mark) : Except Fault (Token × List Mark) := do
  let (major, rest) ← directiveNumber (skipSpaces ms)
  match rest with
  | [] => .error .badDirective
  | m :: rest =>
    if m.char ≠ '.' then .error .badDirective
    else
      let (_, rest) ← directiveNumber rest
      if atLineEnd rest || startsWith ' ' rest then .ok (.version major, rest) else .error .badDirective

def handleDirective (fuel : Nat) (ms : List Mark) : Except Fault (Token × List Mark) := do
  let (h, rest) ← tagHandle (skipSpaces ms)
  if !startsWith ' ' rest then .error .badDirective
  else
    let (s, rest) ← uri fuel (skipSpaces rest)
    if atLineEnd rest || startsWith ' ' rest then .ok (.handle h s, rest) else .error .badDirective

/-- A directive after its `%`, up to the next line. -/
def directive (fuel : Nat) (ms : List Mark) : Except Fault (Token × List Mark) := do
  let (n, rest) ← name ms
  if !(atLineEnd rest || startsWith ' ' rest) then .error .badDirective
  else
    let (t, rest) ←
      if n = "YAML" then versionDirective rest
      else if n = "TAG" then handleDirective fuel rest
      else .ok (.otherDirective, skipLine rest)
    match restOfLine? rest with
    | some rest => .ok (t, rest)
    | none => .error .badDirective

end ExemptZones.Yaml
