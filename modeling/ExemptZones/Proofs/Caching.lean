import ExemptZones.Proofs.Resolution

/-
Parties looked up one after the other with one cache. The cache saves reading a zone again, and that is all it does:
each answer is the one that an empty cache would have given.

`Shares`: what holds after each look-up of such a run.
`caching_transparent`: it holds of every run, whatever the cache begins with, as long as that agrees with the records.
-/

namespace ExemptZones.Registry

open ExemptZones.Action

/-- The parties looked up in order, each with the cache that the one before it has left. Answers what was found for
each, and the cache after it. -/
def resolveEach : List Party → Cache → Action (List (Option Zone × Cache))
  | [], _ => pure []
  | p :: ps, cache => do
    let (z, cache') ← resolve p cache
    return (z, cache') :: (← resolveEach ps cache')

/-- The rounds of a run from the session `s`, begun with some cache. Each party gets what the records say, which is what
it gets with an empty cache, and the cache after it is in order. -/
inductive Shares (s : Session) : Cache → List Party → List (Option Zone × Cache) → Prop where
  | nil (cache : Cache) : Shares s cache [] []
  | cons {p : Party} {ps : List Party} {cache cache' alone : Cache} {rounds : List (Option Zone × Cache)}
    (fresh : (resolve p []).run s = (.ok (resolved s.records p, alone), s))
    (caches : Caches s.records p cache cache') (rest : Shares s cache' ps rounds) :
    Shares s cache (p :: ps) ((resolved s.records p, cache') :: rounds)

/-- **Caching is transparent.** Parties are looked up with one cache in which every zone is the one that is read under
its name. Each answer is the one for an empty cache, and after each the cache agrees with the records, has lost nothing
and holds the zone that was found; a party without a zone leaves it as it was. Nothing is asked of the records but that
they can be read. -/
theorem caching_transparent (s : Session) (hs : s.store.link = .live) (hz : ZonesDecode s.records)
    (hm : MembersDecode s.records) (cache : Cache)
    (hc : ∀ name z, cache.lookup name = some z → (getZone name).run s = (.ok z, s)) (ps : List Party) :
    ∃ rounds, (resolveEach ps cache).run s = (.ok rounds, s) ∧ Shares s cache ps rounds := by
  replace hc := (agrees_iff hs).2 hc
  induction ps generalizing cache with
  | nil => exact ⟨[], rfl, .nil cache⟩
  | cons p ps ih =>
    obtain ⟨alone, hfresh, -⟩ := run_resolve_cached hs hz hm p (Agrees.nil _)
    obtain ⟨cache', hrun, hcaches⟩ := run_resolve_cached hs hz hm p hc
    obtain ⟨rounds, hrest, hshares⟩ := ih cache' hcaches.agrees
    refine ⟨(resolved s.records p, cache') :: rounds, ?_, .cons hfresh hcaches hshares⟩
    simp only [resolveEach, run_bind, hrun, hrest, run_pure]

/-- A cache that begins with a zone whose record bears another name. Of the parties one has a zone, which is read once
for two look-ups, one is a member of the zone in the cache, and one of a zone that is gone. -/
theorem caching_transparent_dangling :
    let z : Zone := ⟨{ outgoing := true }, "a"⟩
    let y : Zone := ⟨{}, "y"⟩
    let r := ([(zoneKey "a", z.encode), (zoneKey "c", y.encode), (memberKey "u", Utf8.encode "c"),
      (memberKey "w", Utf8.encode "b"), (memberKey "x", Utf8.encode "a")]).foldl (fun r e => r.insert e.1 e.2) .empty
    let s : Session := ⟨.ofRecords r, []⟩
    let ps : List Party :=
      [.named "x", .named "w", .unspecified, .named "x", .unencodable ⟨[.half 0xd800], rfl⟩, .named "u"]
    ∃ rounds, (resolveEach ps [("c", y)]).run s = (.ok rounds, s) ∧ Shares s [("c", y)] ps rounds ∧
      rounds.map (·.1) = [some z, none, none, some z, none, some y] ∧
      rounds.map (·.2) = ps.map fun _ => [("c", y), ("a", z)] := by
  intro z y r s ps
  have hc : Agrees s.records [("c", y)] := (Agrees.nil _).snoc (by decide +kernel)
  obtain ⟨rounds, hrun, hshares⟩ :=
    caching_transparent s rfl (by decide +kernel) (by decide +kernel) [("c", y)] ((agrees_iff rfl).1 hc) ps
  have hval : (((resolveEach ps [("c", y)]).run s).1.toOption.map fun xs => (xs.map (·.1), xs.map (·.2))) =
      some ([some z, none, none, some z, none, some y], ps.map fun _ => [("c", y), ("a", z)]) := by decide +kernel
  rw [hrun] at hval
  obtain ⟨hzones, hcaches⟩ := Prod.mk.inj (Option.some.inj hval)
  exact ⟨rounds, hrun, hshares, hzones, hcaches⟩

end ExemptZones.Registry
