import ExemptZones.Page
import ExemptZones.Registry.Membership

/-
Listings, page by page. A walk goes through records in order and counts those that match; the ones
whose count falls inside the page are collected. The first match after the page is where the next
page starts, and unless all matches are to be counted the walk ends there.
-/

namespace ExemptZones

/-- The part of the matches that a page holds: from `first` on, and before `stop` if there is one. -/
structure Window where
  first : Nat
  stop : Option Nat
  deriving DecidableEq, Repr

namespace Window

def ofRequest (p : PageRequest) : Window :=
  ⟨p.offset, if p.limit = 0 then none else some (p.offset + p.limit)⟩

def holds (w : Window) (hits : Nat) : Bool :=
  w.first ≤ hits && (match w.stop with | some n => hits < n | none => true)

end Window

/-- What a walk did: the records it looked at, each with whether it fell inside the page, how many
matched, and where the next page starts. -/
structure Walk where
  visited : List (Record × Bool) := []
  hits : Nat
  nextKey : Option Bytes := none
  deriving DecidableEq, Repr

/-- Walks on after `hits` matches. -/
def Walk.run (wanted : Record → Bool) (w : Window) (counting : Bool) : Nat → List Record → Walk
  | hits, [] => { hits := hits }
  | hits, e :: es =>
    let visit := (e, w.holds hits)
    if wanted e then
      if w.stop = some hits then
        if counting then
          let rest := Walk.run wanted w counting (hits + 1) es
          { rest with visited := visit :: rest.visited, nextKey := some e.1 }
        else { visited := [visit], hits := hits + 1, nextKey := some e.1 }
      else
        let rest := Walk.run wanted w counting (hits + 1) es
        { rest with visited := visit :: rest.visited }
    else
      let rest := Walk.run wanted w counting hits es
      { rest with visited := visit :: rest.visited }

/-- The matching records inside the page. -/
def Walk.collected (wanted : Record → Bool) (walk : Walk) : List Record :=
  (walk.visited.filter fun (e, inside) => inside && wanted e).map (·.1)

namespace PageRequest

/-- Whether all matches are counted: not when the listing goes on from a key. -/
def counting (p : PageRequest) : Bool :=
  p.countTotal && p.key.isNone

/-- The bounds of the records that a page may hold. Downwards it goes on from the key itself. -/
def bounds (p : PageRequest) : Option Bytes × Option Bytes :=
  match p.key with
  | none => (none, none)
  | some k => if p.reverse then (none, some (k ++ [0])) else (some k, none)

end PageRequest

namespace Registry

open ExemptZones.Action

/-- One page of a view; no request asks for everything. -/
def paginate (v : View) (request : Option PageRequest) (wanted : Record → Bool) : Action (Walk × PageResponse) := do
  let p := request.getD {}
  if p.key.isSome && p.offset > 0 then blame .keyAndOffset
  let (start, stop) := p.bounds
  let es ← v.scan start stop p.reverse
  let walk := Walk.run wanted (Window.ofRequest p) p.counting 0 es
  return (walk, { nextKey := walk.nextKey, total := if p.counting then some walk.hits else none })

/-- The zones in the order of their names. -/
def listZones (request : Option PageRequest) : Action (List Zone × PageResponse) := do
  let wanted := fun _ => true
  let (walk, page) ← paginate zoneView request wanted
  return (← (walk.collected wanted).mapM fun e => decodeZone e.2, page)

/-- The members of a zone, or of all zones if the name is empty, in the order of the addresses. -/
def listAddresses (zone : Text) (request : Option PageRequest) : Action (List String × PageResponse) := do
  let zone ← encodable zone
  let wanted : Record → Bool := fun e => zone.isEmpty || e.2 = Utf8.encode zone
  let (walk, page) ← paginate memberView request wanted
  return (← (walk.collected wanted).mapM fun e => decodeText e.1, page)

end Registry

end ExemptZones
