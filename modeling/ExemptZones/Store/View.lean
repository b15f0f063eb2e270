import ExemptZones.Store.Basic

/-
Views: the records whose keys have a fixed beginning, seen without it. The keys with a beginning are
exactly those from the beginning itself up to the least key above all of them, so a view scans one
range of the store.
-/

namespace ExemptZones

/-- The least key above all keys that start with `p`, if there is any: the last byte that is not
`0xff` goes up by one, and what follows it goes away. -/
def keyAbove (p : Bytes) : Option Bytes :=
  match p.reverse.dropWhile (· = 0xff) with
  | [] => none
  | b :: bs => some (bs.reverse ++ [b + 1])

structure View where
  beginning : Bytes
  deriving DecidableEq, Repr

namespace View

/-- The whole store. -/
def whole : View := ⟨[]⟩

def key (v : View) (k : Bytes) : Bytes :=
  v.beginning ++ k

def get (v : View) (k : Bytes) : Action (Option Bytes) :=
  Store.get (v.key k)

def has (v : View) (k : Bytes) : Action Bool :=
  Store.has (v.key k)

def set (v : View) (k x : Bytes) : Action Unit :=
  Store.set (v.key k) x

def delete (v : View) (k : Bytes) : Action Unit :=
  Store.delete (v.key k)

def lower (v : View) (start : Option Bytes) : Bytes :=
  match start with
  | some k => v.key k
  | none => v.beginning

def upper (v : View) (stop : Option Bytes) : Option Bytes :=
  match stop with
  | some k => some (v.key k)
  | none => keyAbove v.beginning

/-- An entry without the beginning of its key. -/
def strip (v : View) (e : Record) : Record :=
  (e.1.drop v.beginning.length, e.2)

/-- The entries from `start` up to `stop`, as they stand now. -/
def scan (v : View) (start stop : Option Bytes) (reverse : Bool) : Action (List Record) := do
  return (← Store.scan (some (v.lower start)) (v.upper stop) reverse).map v.strip

/-- Deletes every entry of a range, one after another. -/
def deleteRange (v : View) (start stop : Option Bytes) (reverse : Bool) : Action (List Record) := do
  let es ← v.scan start stop reverse
  es.forM fun e => v.delete e.1
  return es

/-- Writes the value of every entry of a range a second time, under its key and a zero byte. -/
def duplicateRange (v : View) (start stop : Option Bytes) (reverse : Bool) : Action (List Record) := do
  let es ← v.scan start stop reverse
  es.forM fun e => v.set (e.1 ++ [0]) e.2
  return es

end View

end ExemptZones
