import ProductLock.Proofs.Resolution.Entries

namespace ProductLock

open Version

namespace Dependency

/-- What the versions of a dependency have to do with those it was merged from. -/
structure Summarises (m : Dependency) (cs : List Dependency) : Prop where
  minimum_mem : ∃ c ∈ cs, c.minimum = m.minimum
  minimum_greatest : ∀ c ∈ cs, ∃ o, compareOrderable c.minimum m.minimum = .ok o ∧ o ≠ .gt
  maximum_mem : ∃ c ∈ cs, c.maximum = m.maximum
  maximum_least : ∀ c ∈ cs, ∃ o, compareMaximum c.maximum m.maximum = .ok o ∧ o ≠ .lt
  recommended_mem : ∀ v, m.recommended = some v → ∃ c ∈ cs, c.recommended = some v
  recommended_inside : Mixed cs → ∀ v, m.recommended = some v →
    inWindow m.minimum m.maximum v = .ok true

theorem Tightest.summarises {cs : List Dependency} {m : Dependency} {t : Terms}
    (h : Tightest cs m t) (hsound : t.Sound) : m.Summarises cs := by
  obtain ⟨hl, hh, _⟩ := terms_eq_some.mp h.terms
  refine ⟨?_, ?_, ?_, ?_, ?_, ?_⟩
  · obtain ⟨s, hs, he⟩ := h.lowest.1
    obtain ⟨c, hc, hcs⟩ := mem_termsOf.mp hs
    exact ⟨c, hc, level_injective (he ▸ (terms_eq_some.mp hcs).1) hl⟩
  · intro c hc
    obtain ⟨s, hcs⟩ := h.computable c hc
    have hle := h.lowest.2 ⟨s, mem_termsOf.mpr ⟨c, hc, hcs⟩, rfl⟩
    exact ⟨_, compareOrderable_ok.mpr ⟨_, _, (terms_eq_some.mp hcs).1, hl, rfl⟩,
      Bound.le_iff.mp hle⟩
  · obtain ⟨s, hs, he⟩ := h.highest.1
    obtain ⟨c, hc, hcs⟩ := mem_termsOf.mp hs
    exact ⟨c, hc, ceiling_injective (he ▸ (terms_eq_some.mp hcs).2.1) hh⟩
  · intro c hc
    obtain ⟨s, hcs⟩ := h.computable c hc
    have hle := h.highest.2 ⟨s, mem_termsOf.mpr ⟨c, hc, hcs⟩, rfl⟩
    refine ⟨_, compareMaximum_ok.mpr ⟨_, _, (terms_eq_some.mp hcs).2.1, hh, rfl⟩, ?_⟩
    rw [Ne, ← Bound.lt_iff]
    exact not_lt.mpr hle
  · intro v hv
    obtain ⟨b, hb, he⟩ := (recommended_eq_some h.terms).mp hv
    obtain ⟨s, hs, hsb⟩ := h.preferred b he
    obtain ⟨c, hc, hcs⟩ := mem_termsOf.mp hs
    exact ⟨c, hc, (recommended_eq_some hcs).mpr ⟨b, hb, hsb⟩⟩
  · intro _ v hv
    obtain ⟨b, hb, he⟩ := (recommended_eq_some h.terms).mp hv
    exact (inWindow_ok hl hh).mpr ⟨b, hb, decide_eq_true (hsound.preferred b he)⟩

/-- Equal dependencies are summed up as soon as their bounds can be computed with. -/
theorem summarises_of_uniform {cs : List Dependency} {m : Dependency} {l u : Bound}
    (hne : cs ≠ []) (hall : ∀ c ∈ cs, c = m) (hl : level m.minimum = some l)
    (hu : ceiling m.maximum = some u) : m.Summarises cs := by
  have hm : m ∈ cs := by
    obtain ⟨c, hc⟩ := List.exists_mem_of_ne_nil cs hne
    exact hall c hc ▸ hc
  refine ⟨⟨m, hm, rfl⟩, ?_, ⟨m, hm, rfl⟩, ?_, fun v hv => ⟨m, hm, hv⟩, ?_⟩
  · intro c hc
    rw [hall c hc]
    exact ⟨_, compareOrderable_ok.mpr ⟨l, l, hl, hl, rfl⟩, Bound.le_iff.mp le_rfl⟩
  · intro c hc
    rw [hall c hc]
    refine ⟨_, compareMaximum_ok.mpr ⟨u, u, hu, hu, rfl⟩, ?_⟩
    rw [Ne, ← Bound.lt_iff]
    exact lt_irrefl u
  · intro hmix
    exact absurd hmix (not_mixed_of_uniform hall)

theorem Merged.summarises {cs : List Dependency} {m : Dependency} (h : Merged cs m)
    (hbounds : ∃ l u, level m.minimum = some l ∧ ceiling m.maximum = some u) :
    m.Summarises cs := by
  rcases h.tightest with hall | ⟨_, t, ht, hs⟩
  · obtain ⟨l, u, hl, hu⟩ := hbounds
    exact summarises_of_uniform h.nonempty hall hl hu
  · exact ht.summarises hs

end Dependency

namespace Resolver

open Dependency

theorem isMarkedOptional_iff {r : Resolver} {declared : List Dependency} {id : ProductId} :
    r.isMarkedOptional declared id = true ↔
      id ∈ r.optional ∨ ∃ d ∈ declared, d.product = id ∧ d.optional = true := by
  simp [isMarkedOptional]

theorem mark_optional {r : Resolver} {declared : List Dependency} {m : Dependency} :
    (r.mark declared m).optional = true ↔
      r.isMarkedOptional declared m.product = true ∨ m.optional = true := by
  unfold mark
  split
  · next h => simp [h, asOptional]
  · next h => simp [h]

theorem mark_summarises {r : Resolver} {declared cs : List Dependency} {m : Dependency}
    (h : m.Summarises cs) : (r.mark declared m).Summarises cs := by
  unfold mark
  split
  · exact ⟨h.minimum_mem, h.minimum_greatest, h.maximum_mem, h.maximum_least, h.recommended_mem,
      h.recommended_inside⟩
  · exact h

theorem Resolved.mem_ids {r : Resolver} {declared discovered : List Dependency} {report : Report}
    {id : ProductId} (h : r.Resolved declared discovered report) :
    id ∈ report.ids ↔ (∃ d ∈ declared, d.product = id) ∨
      ∃ d ∈ discovered, d.product = id ∧ id ≠ r.product ∧ id ∉ r.ignored := by
  constructor
  · intro hid
    obtain ⟨e, he, rfl⟩ := List.mem_map.mp hid
    obtain ⟨m, hm, rfl⟩ := (h.entries e).mp he
    obtain ⟨hforeign, hheeded⟩ := hm.foreign h.sensible
    obtain ⟨c, hc⟩ := List.exists_mem_of_ne_nil _ (hm.merged h.sensible).nonempty
    obtain ⟨hc, hp⟩ := mem_on.mp hc
    rw [mark_product]
    rcases List.mem_append.mp hc with hc | hc
    · exact .inl ⟨c, hc, hp⟩
    · exact .inr ⟨c, hc, hp, hforeign, hheeded⟩
  · intro hd
    have hexists : ∃ m, r.Entry declared discovered m ∧ m.product = id := by
      rcases hd with ⟨d, hd, rfl⟩ | ⟨d, hd, rfl, hforeign, hheeded⟩
      · have ha := h.sensible.admitted d hd
        exact h.complete d (List.mem_append_left _ hd) ha.foreign ha.heeded
      · exact h.complete d (List.mem_append_right _ hd) hforeign hheeded
    obtain ⟨m, hm, rfl⟩ := hexists
    refine List.mem_map.mpr ⟨r.mark declared m, (h.entries _).mpr ⟨m, hm, rfl⟩, ?_⟩
    exact mark_product r declared m

/-- The bounds of an entry can be computed with, even if it is the only dependency on its product. -/
theorem Entry.bounds {r : Resolver} {declared discovered : List Dependency} {m : Dependency}
    (h : r.Entry declared discovered m) (hs : r.Sensible declared)
    (hd : ∀ d ∈ discovered, d.Mergeable) :
    ∃ l u, level m.minimum = some l ∧ ceiling m.maximum = some u := by
  have hm := h.merged hs
  rcases hm.tightest with hall | ⟨_, t, ht, _⟩
  · obtain ⟨c, hc⟩ := List.exists_mem_of_ne_nil _ hm.nonempty
    have hcm := hall c hc
    subst hcm
    rcases List.mem_append.mp (mem_on.mp hc).1 with hc | hc
    · obtain ⟨⟨l, u, hl, hu, _⟩, _⟩ := checkMergeable_ok.mp (hs.admitted c hc).mergeable
      exact ⟨l, u, hl, hu⟩
    · obtain ⟨t, ht⟩ := (hd c hc).exists_terms
      exact ⟨_, _, (terms_eq_some.mp ht).1, (terms_eq_some.mp ht).2.1⟩
  · exact ⟨_, _, (terms_eq_some.mp ht.terms).1, (terms_eq_some.mp ht.terms).2.1⟩

/-- What is reported: for each product that is declared, or discovered and neither the resolver's own
nor ignored, one entry that sums up everything known of it. -/
theorem resolve_contents {r : Resolver} {declared discovered : List Dependency} {res : Resolution}
    (hd : ∀ d ∈ discovered, d.Mergeable) (h : r.resolve declared discovered = .ok res) :
    (res.report.ids.Pairwise fun a b => a.compare b = .lt) ∧
    (∀ id, id ∈ res.report.ids ↔ (∃ d ∈ declared, d.product = id) ∨
      ∃ d ∈ discovered, d.product = id ∧ id ≠ r.product ∧ id ∉ r.ignored) ∧
    ∀ e ∈ res.report.dependencies,
      e.Summarises (on e.product (declared ++ discovered)) ∧
      (e.optional = true ↔ e.product ∈ r.optional ∨
        (∃ d ∈ declared, d.product = e.product ∧ d.optional = true) ∨
        ∀ c ∈ on e.product (declared ++ discovered), c.optional = true) := by
  have hr := resolve_resolved h
  refine ⟨Report.ids_strict hr.nodup, fun id => hr.mem_ids, ?_⟩
  intro e he
  obtain ⟨m, hm, rfl⟩ := (hr.entries e).mp he
  have hmerged := hm.merged hr.sensible
  rw [mark_product]
  constructor
  · exact mark_summarises (hmerged.summarises (hm.bounds hr.sensible hd))
  · rw [mark_optional, isMarkedOptional_iff, hmerged.optional_iff, or_assoc]

/-- A dependency that an artifact recommends as optional. -/
def extra : Dependency :=
  .ofFields ⟨"com.example", "lib", "1.0.0", "1.x.x", some "1.2.0", true⟩ rfl

theorem extra_mergeable : extra.Mergeable where
  minimum := by decide +kernel
  maximum := by decide +kernel
  recommended := by decide +kernel

/-- What only artifacts ask for stays optional, though nobody declared or listed it so. -/
theorem extra_stays_optional : ∃ res, Resolver.resolve { product := app } [] [extra] = .ok res ∧
    ∃ e ∈ res.report.dependencies, ¬ (e.optional = true ↔
      e.product ∈ ([] : List ProductId) ∨
        ∃ d ∈ ([] : List Dependency), d.product = e.product ∧ d.optional = true) := by
  have ho : extra.optional = true := rfl
  exact ⟨⟨.of [extra], []⟩, rfl, extra, List.mem_cons_self, by simp [ho]⟩

/-- A declared dependency on the same product, and another one that an artifact recommends. -/
def shared : Dependency :=
  .ofFields ⟨"com.example", "lib", "1.1.5", "3.x.x", none, false⟩ rfl

def later : Dependency :=
  .ofFields ⟨"com.example", "lib", "1.0.0", "2.x.x", some "1.4.0", false⟩ rfl

/-- Each of the three has its part in what they are merged to. -/
def joint : Dependency :=
  .ofFields ⟨"com.example", "lib", "1.1.5", "1.x.x", some "1.4.0", false⟩ rfl

theorem resolve_contents_joint :
    (∀ d ∈ [extra, later], d.Mergeable) ∧
    Resolver.resolve { product := app } [shared] [extra, later] = .ok ⟨.of [joint], []⟩ ∧
    joint.Summarises [shared, extra, later] ∧
    (joint.optional = true ↔ ∀ c ∈ [shared, extra, later], c.optional = true) := by
  have hlater : later.Mergeable :=
    ⟨by decide +kernel, by decide +kernel, by decide +kernel⟩
  have hd : ∀ d ∈ [extra, later], d.Mergeable := by simpa using ⟨extra_mergeable, hlater⟩
  have h : Resolver.resolve { product := app } [shared] [extra, later] =
      .ok ⟨.of [joint], []⟩ := by decide +kernel
  obtain ⟨-, -, hentries⟩ := resolve_contents hd h
  obtain ⟨hsum, hoptional⟩ := hentries joint List.mem_cons_self
  have hon : on joint.product ([shared] ++ [extra, later]) = [shared, extra, later] := by
    decide +kernel
  rw [hon] at hsum hoptional
  refine ⟨hd, h, hsum, hoptional.trans ?_⟩
  have hmarked : ¬ (joint.product ∈ ([] : List ProductId) ∨
      ∃ d ∈ [shared], d.product = joint.product ∧ d.optional = true) := by decide +kernel
  rw [← or_assoc]
  exact or_iff_right hmarked

end Resolver

end ProductLock
