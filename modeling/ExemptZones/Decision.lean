import ExemptZones.Zone

/-
The decision whether a transfer is exempt from the levy. Each side is in a zone or in none; a side in
no zone is not the same as a side in a zone without flags.
-/

namespace ExemptZones.Decision

/-- A zone's own flag, toward a side in another zone. -/
def crosses (flag : Bool) (z : Zone) : Bool :=
  flag && z.crossZone

/-- Whether a transfer from a member of `sender` to a member of `recipient` is exempt. -/
def exempt : (sender recipient : Option Zone) → Bool
  | none, none => false
  | some s, none => s.outgoing
  | none, some r => r.incoming
  | some s, some r => s.name = r.name || crosses s.outgoing s || crosses r.incoming r

end ExemptZones.Decision
