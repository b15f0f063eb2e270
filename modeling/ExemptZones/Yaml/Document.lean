import ExemptZones.Decimal.Whole
import ExemptZones.Yaml.Node
import ExemptZones.Yaml.Spelling

/-
Documents: the value that a tree of nodes stands for. A map may take in the entries of others by a merge key;
its own entries count over those, and of entries with one key the last.
-/

namespace ExemptZones.Yaml

abbrev Entry := Value × Value

/-! ## Keys -/

/-- Whether two values are the same number. A flag counts as zero or one. -/
def sameNumber (a b : Value) : Bool :=
  match a, b with
  | .float x, .float y => x == y
  | .float x, b | b, .float x =>
    match b with
    | .int i => Decimal.wholeness x = .whole i
    | .bool p => Decimal.wholeness x = .whole (if p then 1 else 0)
    | _ => false
  | .int i, .int j => i = j
  | .bool p, .bool q => p = q
  | .int i, .bool p | .bool p, .int i => i = (if p then 1 else 0)
  | _, _ => false

/-- Whether two values are one key. -/
def sameKey (a b : Value) : Bool :=
  match a, b with
  | .null, .null => true
  | .text s, .text t => s = t
  | .broken x, .broken y => x = y
  | .bytes x, .bytes y => x = y
  | .other _ s, .other _ t => s = t
  | a, b => sameNumber a b

/-- Puts an entry into a map: in the place of one with its key, else at the end. -/
def putEntry (k v : Value) : List Entry → List Entry
  | [] => [(k, v)]
  | (k', v') :: es => if sameKey k' k then (k', v) :: es else (k', v') :: putEntry k v es

def ofEntries (es : List Entry) : List Entry :=
  es.foldl (fun acc (k, v) => putEntry k v acc) []

/-- Lists and maps are no keys. -/
def fitKey (v : Value) : Except Fault Value :=
  match v with
  | .list _ | .map _ => .error .unfitKey
  | v => .ok v

/-! ## Scalars -/

/-- The value of a scalar with a tag. -/
def scalarValue (t : Tag) (c : Text) : Except Fault Value :=
  let s := c.plain?.getD ""
  match t with
  | .kind .text => .ok (.ofText c)
  | .kind .null => .ok .null
  | .kind .flag => flagValue s
  | .kind .integer => integerValue s
  | .kind .float => floatValue s
  | .kind .date => dateValue s
  | .kind .merge | .kind .default | .kind .indicator | .unknown => .error .unknownTag
  | .bytes => bytesValue s
  | .list | .map | .set | .pairs => .error .wrongKind

/-- Whether a tag asks for a scalar. -/
def Tag.isScalar : Tag → Bool
  | .kind .merge | .kind .default | .kind .indicator => false
  | .kind _ | .bytes => true
  | _ => false

/-- Why a list or map with a tag has no value. -/
def misfit (t : Tag) : Fault :=
  match t with
  | .unknown | .kind .merge | .kind .default | .kind .indicator => .unknownTag
  | _ => .wrongKind

def isMergeKey : Node → Bool
  | .scalar (.kind .merge) _ => true
  | _ => false

def isDefaultKey : Node → Bool
  | .scalar (.kind .default) _ => true
  | _ => false

mutual

/-- The text of a node that has to be a scalar: a map stands for the value under its default key. -/
def scalarContent : Node → Except Fault Text
  | .scalar _ c => .ok c
  | .map _ es => defaultContent es
  | _ => .error .wrongKind

def defaultContent : List (Node × Node) → Except Fault Text
  | [] => .error .wrongKind
  | (k, v) :: es => if isDefaultKey k then scalarContent v else defaultContent es

end

/-! ## Trees -/

def pairText (k v : Value) : Value :=
  let s := "(" ++ k.inside ++ ", " ++ v.inside ++ ")"
  .other s s

/-- A set is known by its text alone. -/
def setValue (ks : List Value) : Value :=
  let s := if ks.isEmpty then "set()" else "\x7b" ++ ", ".intercalate (ks.map Value.inside) ++ "\x7d"
  .other s s

mutual

def value : Node → Except Fault Value
  | .scalar t c => scalarValue t c
  | .list t items =>
    match t with
    | .list => (values items).map .list
    | .pairs => (pairs items).map .list
    | t => .error (misfit t)
  | .map t es =>
    match t with
    | .map => (entries es).map fun (merged, own) => .map (ofEntries (merged ++ own))
    | .set => (entries es).map fun (merged, own) => setValue ((ofEntries (merged ++ own)).map (·.1))
    | t => if t.isScalar then do scalarValue t (← defaultContent es) else .error (misfit t)
  | .cycle map =>
    let s := if map then "\x7b...\x7d" else "[...]"
    .ok (.other s s)

def values : List Node → Except Fault (List Value)
  | [] => .ok []
  | n :: ns => do
    let v ← value n
    return v :: (← values ns)

/-- Maps with one entry each. -/
def pairs : List Node → Except Fault (List Value)
  | [] => .ok []
  | .map _ [(k, v)] :: ns => do
    let p := pairText (← value k) (← value v)
    return p :: (← pairs ns)
  | _ => .error .wrongKind

/-- The entries that a map takes in from others, and its own. -/
def entries : List (Node × Node) → Except Fault (List Entry × List Entry)
  | [] => .ok ([], [])
  | (k, v) :: es =>
    if isMergeKey k then do
      let taken ← taken v
      let (merged, own) ← entries es
      return (taken ++ merged, own)
    else do
      let key ← if isDefaultKey k then .ok (.text "=") else value k >>= fitKey
      let v ← value v
      let (merged, own) ← entries es
      return (merged, (key, v) :: own)

/-- The entries that a merge key takes in: those of a map, or of several, the first of which counts most. -/
def taken : Node → Except Fault (List Entry)
  | .map _ es => (entries es).map fun (merged, own) => merged ++ own
  | .list _ items => (takenEach items).map fun ts => ts.reverse.flatten
  | _ => .error .unfitMerge

def takenEach : List Node → Except Fault (List (List Entry))
  | [] => .ok []
  | .map _ es :: ns => do
    let (merged, own) ← entries es
    return (merged ++ own) :: (← takenEach ns)
  | _ => .error .unfitMerge

end

/-- The value of a text that holds at most one document; without one it is null. -/
def read (s : String) : Except Fault Value := do
  match ← Node.ofTokens (← tokens s.toList) with
  | some n => value n
  | none => .ok .null

end ExemptZones.Yaml
