import ExemptZones.Yaml.Kind
import ExemptZones.Yaml.Token.Lexer

/-
Nodes: the tree that tokens spell. Every node has a tag, its own or the one that goes without saying, and an
alias is replaced by the node it stands for.
-/

namespace ExemptZones.Yaml

/-- What a node is to be taken for. -/
inductive Tag where
  | kind (k : Kind)
  | bytes
  | list
  | map
  | set
  | pairs
  | unknown
  deriving DecidableEq, Repr

inductive Node where
  | scalar (tag : Tag) (content : Text)
  | list (tag : Tag) (items : List Node)
  | map (tag : Tag) (entries : List (Node × Node))
  /-- An alias for a node that it is itself a part of. -/
  | cycle (map : Bool)

/-- The start of the tags that this library knows. -/
def standardLead : String := "tag:yaml.org,2002:"

def standardTags : List (String × Tag) :=
  [("null", .kind .null), ("bool", .kind .flag), ("int", .kind .integer), ("float", .kind .float),
    ("timestamp", .kind .date), ("str", .kind .text), ("merge", .kind .merge), ("value", .kind .default),
    ("binary", .bytes), ("seq", .list), ("map", .map), ("set", .set), ("omap", .pairs), ("pairs", .pairs)]

def Tag.ofUri (s : String) : Tag :=
  ((standardTags.map fun (n, t) => (standardLead ++ n, t)).lookup s).getD .unknown

/-- The state of reading nodes: the tokens ahead, what tag handles stand for, and the named nodes. -/
structure Reading where
  ahead : List Token
  handles : List (String × String) := []
  /-- Nodes by name; of one that is still open only whether it is a map. -/
  anchors : List (String × Node) := []

namespace Reading

def next (s : Reading) : Reading :=
  { s with ahead := s.ahead.drop 1 }

/-- Goes past a token that has to come. -/
def expect (t : Token) (s : Reading) : Except Fault Reading :=
  match s.ahead with
  | u :: r => if u = t then .ok { s with ahead := r } else .error .unexpected
  | [] => .error .unexpected

def sees (s : Reading) (ts : List Token) : Bool :=
  match s.ahead with
  | u :: _ => ts.contains u
  | [] => false

/-- Gives a node its name. -/
def name (s : Reading) (anchor : Option String) (n : Node) : Reading :=
  match anchor with
  | some a => { s with anchors := (a, n) :: s.anchors }
  | none => s

end Reading

/-- An empty scalar. -/
def Node.empty : Node :=
  .scalar (.kind .null) (.plain "")

/-- What stands before a node: its name and its tag. -/
structure Properties where
  anchor : Option String := none
  tag : Option String := none
  deriving DecidableEq, Repr

namespace Properties

def isEmpty (p : Properties) : Bool :=
  p.anchor.isNone && p.tag.isNone

/-- Whether the tag is left to the node itself. -/
def isOpen (p : Properties) : Bool :=
  p.tag = none || p.tag = some "!"

def tagOr (p : Properties) (default : Tag) : Tag :=
  match p.tag with
  | none => default
  | some t => if t = "!" then default else .ofUri t

/-- The tag of a scalar. The spelling decides when it is plain, or has a tag that names nothing. -/
def scalarTag (p : Properties) (plain : Bool) (c : Text) : Tag :=
  if p.isOpen then
    if plain || p.tag.isSome then .kind (match c with | .plain s => .ofText s | .broken _ => .text)
    else .kind .text
  else p.tagOr (.kind .text)

end Properties

/-- The full text of a tag. -/
def tagText (handles : List (String × String)) (h : Option String) (suffix : String) : Except Fault String :=
  match h with
  | none => .ok suffix
  | some h =>
    match handles.lookup h with
    | some lead => .ok (lead ++ suffix)
    | none => .error .undefinedHandle

/-- A name and a tag, in either order. -/
def properties (s : Reading) : Except Fault (Properties × Reading) :=
  match s.ahead with
  | .anchor a :: .tag h t :: r => do return (⟨some a, some (← tagText s.handles h t)⟩, { s with ahead := r })
  | .anchor a :: r => .ok (⟨some a, none⟩, { s with ahead := r })
  | .tag h t :: .anchor a :: r => do return (⟨some a, some (← tagText s.handles h t)⟩, { s with ahead := r })
  | .tag h t :: r => do return (⟨none, some (← tagText s.handles h t)⟩, { s with ahead := r })
  | _ => .ok ({}, s)

/-- Where a node stands, which decides what it may be. -/
inductive Place where
  /-- Inside brackets. -/
  | flow
  | block
  /-- In a block map, where a list needs no indentation. -/
  | blockEntry
  deriving DecidableEq, Repr

mutual

def node (place : Place) : Nat → Reading → Except Fault (Node × Reading)
  | 0, _ => .error .unfinished
  | fuel + 1, s =>
    match s.ahead with
    | .alias a :: r =>
      match s.anchors.lookup a with
      | some n => .ok (n, { s with ahead := r })
      | none => .error .undefinedAlias
    | _ => do
      let (p, s) ← properties s
      if let some a := p.anchor then if (s.anchors.lookup a).isSome then throw .duplicateAnchor
      match s.ahead with
      | .blockEntry :: _ =>
        if place = .blockEntry then do
          let (items, s) ← looseItems fuel (s.name p.anchor (.cycle false))
          finish p (.list (p.tagOr .list) items) s
        else bare p s
      | .scalar c plain :: r => finish p (.scalar (p.scalarTag plain c) c) { s with ahead := r }
      | .flowListStart :: r => do
        let (items, s) ← flowItems true fuel { s.name p.anchor (.cycle false) with ahead := r }
        finish p (.list (p.tagOr .list) items) s
      | .flowMapStart :: r => do
        let (entries, s) ← flowEntries true fuel { s.name p.anchor (.cycle true) with ahead := r }
        finish p (.map (p.tagOr .map) entries) s
      | .blockListStart :: r =>
        if place = .flow then bare p s
        else do
          let (items, s) ← blockItems fuel { s.name p.anchor (.cycle false) with ahead := r }
          finish p (.list (p.tagOr .list) items) s
      | .blockMapStart :: r =>
        if place = .flow then bare p s
        else do
          let (entries, s) ← blockEntries fuel { s.name p.anchor (.cycle true) with ahead := r }
          finish p (.map (p.tagOr .map) entries) s
      | _ => bare p s
where
  finish (p : Properties) (n : Node) (s : Reading) : Except Fault (Node × Reading) :=
    .ok (n, s.name p.anchor n)
  /-- A node of which nothing but its properties is there. -/
  bare (p : Properties) (s : Reading) : Except Fault (Node × Reading) :=
    if p.isEmpty then .error .unexpected
    else finish p (.scalar (p.scalarTag true (.plain "")) (.plain "")) s

/-- A node, or an empty scalar where one of the tokens `stop` comes first. -/
def nodeOrEmpty (place : Place) (stop : List Token) : Nat → Reading → Except Fault (Node × Reading)
  | 0, _ => .error .unfinished
  | fuel + 1, s => if s.sees stop then .ok (.empty, s) else node place fuel s

/-- The items of a block list. -/
def blockItems : Nat → Reading → Except Fault (List Node × Reading)
  | 0, _ => .error .unfinished
  | fuel + 1, s =>
    if s.sees [.blockEntry] then do
      let (n, s) ← nodeOrEmpty .block [.blockEntry, .blockEnd] fuel s.next
      let (ns, s) ← blockItems fuel s
      return (n :: ns, s)
    else do return ([], ← s.expect .blockEnd)

/-- The items of a list that stands at the column of the map around it. -/
def looseItems : Nat → Reading → Except Fault (List Node × Reading)
  | 0, _ => .error .unfinished
  | fuel + 1, s =>
    if s.sees [.blockEntry] then do
      let (n, s) ← nodeOrEmpty .block [.blockEntry, .key, .value, .blockEnd] fuel s.next
      let (ns, s) ← looseItems fuel s
      return (n :: ns, s)
    else .ok ([], s)

/-- The entries of a block map. -/
def blockEntries : Nat → Reading → Except Fault (List (Node × Node) × Reading)
  | 0, _ => .error .unfinished
  | fuel + 1, s =>
    let stop : List Token := [.key, .value, .blockEnd]
    if s.sees [.key] then do
      let (k, s) ← nodeOrEmpty .blockEntry stop fuel s.next
      let (v, s) ←
        if s.sees [.value] then nodeOrEmpty .blockEntry stop fuel s.next else .ok (Node.empty, s)
      let (es, s) ← blockEntries fuel s
      return ((k, v) :: es, s)
    else do return ([], ← s.expect .blockEnd)

/-- The items of a list in brackets. An item may be a map with one entry. -/
def flowItems (first : Bool) : Nat → Reading → Except Fault (List Node × Reading)
  | 0, _ => .error .unfinished
  | fuel + 1, s =>
    if s.sees [.flowListEnd] then .ok ([], s.next)
    else do
      let s ← if first then pure s else s.expect .flowEntry
      if s.sees [.key] then
        let (k, s) ← nodeOrEmpty .flow [.value, .flowEntry, .flowListEnd] fuel s.next
        let (v, s) ←
          if s.sees [.value] then nodeOrEmpty .flow [.flowEntry, .flowListEnd] fuel s.next
          else .ok (Node.empty, s)
        let (ns, s) ← flowItems false fuel s
        return (.map .map [(k, v)] :: ns, s)
      else if s.sees [.flowListEnd] then return ([], s.next)
      else
        let (n, s) ← node .flow fuel s
        let (ns, s) ← flowItems false fuel s
        return (n :: ns, s)

/-- The entries of a map in braces. A node without a key before it is a key without a value. -/
def flowEntries (first : Bool) : Nat → Reading → Except Fault (List (Node × Node) × Reading)
  | 0, _ => .error .unfinished
  | fuel + 1, s =>
    if s.sees [.flowMapEnd] then .ok ([], s.next)
    else do
      let s ← if first then pure s else s.expect .flowEntry
      if s.sees [.key] then
        let (k, s) ← nodeOrEmpty .flow [.value, .flowEntry, .flowMapEnd] fuel s.next
        let (v, s) ←
          if s.sees [.value] then nodeOrEmpty .flow [.flowEntry, .flowMapEnd] fuel s.next
          else .ok (Node.empty, s)
        let (es, s) ← flowEntries false fuel s
        return ((k, v) :: es, s)
      else if s.sees [.flowMapEnd] then return ([], s.next)
      else
        let (k, s) ← node .flow fuel s
        let (es, s) ← flowEntries false fuel s
        return ((k, Node.empty) :: es, s)

end

/-! ## Documents -/

def defaultHandles : List (String × String) :=
  [("!", "!"), ("!!", standardLead)]

/-- The directives before a document: the handles that they declare, and the tokens after them. At most one says
the version, which must be one that is known. -/
def directives : Bool → List (String × String) → List Token → Except Fault (List (String × String) × List Token)
  | versioned, hs, .version major :: r =>
    if versioned || major ≠ 1 then .error .badDirective else directives true hs r
  | versioned, hs, .handle h lead :: r =>
    if (hs.lookup h).isSome then .error .badDirective else directives versioned ((h, lead) :: hs) r
  | versioned, hs, .otherDirective :: r => directives versioned hs r
  | _, hs, r => .ok (hs, r)

def skipEnds (ts : List Token) : List Token :=
  ts.dropWhile (· = .documentEnd)

/-- Whether a document announces itself, or there is none. -/
def isAnnounced : List Token → Bool
  | [] | .version _ :: _ | .handle _ _ :: _ | .otherDirective :: _ | .documentStart :: _ => true
  | _ => false

/-- What may follow the start of a document that is empty. -/
def isBare (ts : List Token) : Bool :=
  isAnnounced ts || ts.head? = some .documentEnd

/-- The one document that tokens spell; `none` if there is none. -/
def Node.ofTokens (ts : List Token) : Except Fault (Option Node) := do
  let fuel := 3 * ts.length + 3
  if isAnnounced ts then
    match ts with
    | [] => return none
    | ts =>
      let (hs, ts) ← directives false [] ts
      match ts with
      | .documentStart :: ts =>
        if isBare ts then
          atEnd ts
          return some .empty
        else
          let (n, s) ← node .block fuel { ahead := ts, handles := hs ++ defaultHandles }
          atEnd s.ahead
          return some n
      | _ => throw .unexpected
  else
    let (n, s) ← node .block fuel { ahead := ts, handles := defaultHandles }
    atEnd s.ahead
    return some n
where
  /-- No second document follows. -/
  atEnd (ts : List Token) : Except Fault Unit :=
    if (skipEnds ts).isEmpty then .ok () else .error .secondDocument

end ExemptZones.Yaml
