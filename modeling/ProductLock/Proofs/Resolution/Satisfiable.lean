import ProductLock.Proofs.Resolution.Entries

namespace ProductLock

open Version

namespace Dependency

/-- Some version satisfies a dependency, and a recommendation of its own is such a version. -/
structure Satisfiable (d : Dependency) : Prop where
  window : withinMaximum d.minimum d.maximum = .ok true
  recommended : ∀ v, d.recommended = some v → inWindow d.minimum d.maximum v = .ok true

theorem satisfiable_of_sound {d : Dependency} {t : Terms} (ht : d.terms = some t) (hs : t.Sound) :
    d.Satisfiable := by
  obtain ⟨hl, hh, _⟩ := terms_eq_some.mp ht
  refine ⟨withinMaximum_ok.mpr ⟨_, _, hl, hh, decide_eq_true hs.window⟩, ?_⟩
  intro v hv
  obtain ⟨b, hb, he⟩ := (recommended_eq_some ht).mp hv
  exact (inWindow_ok hl hh).mpr ⟨b, hb, decide_eq_true (hs.preferred b he)⟩

theorem Satisfiable.exists_terms {d : Dependency} (h : d.Satisfiable) :
    ∃ t, d.terms = some t ∧ t.Sound := by
  obtain ⟨l, u, hl, hu, hle⟩ := withinMaximum_ok.mp h.window
  have hpreference : ∃ p, preference d.recommended = some p ∧
      ∀ b : Bound, p = b → l ≤ b ∧ b ≤ u := by
    cases hr : d.recommended with
    | none => exact ⟨⊥, rfl, fun b hb => absurd hb.symm WithBot.coe_ne_bot⟩
    | some v =>
      obtain ⟨b, hb, hinside⟩ := (inWindow_ok hl hu).mp (h.recommended v hr)
      refine ⟨b, Option.map_eq_some_iff.mpr ⟨b, hb, rfl⟩, fun c hc => ?_⟩
      exact WithBot.coe_injective hc ▸ of_decide_eq_true hinside
  obtain ⟨p, hp, hinside⟩ := hpreference
  exact ⟨⟨l, u, p⟩, terms_eq_some.mpr ⟨hl, hu, hp⟩, of_decide_eq_true hle, hinside⟩

theorem asOptional_satisfiable {d : Dependency} : d.asOptional.Satisfiable ↔ d.Satisfiable :=
  ⟨fun h => ⟨h.window, h.recommended⟩, fun h => ⟨h.window, h.recommended⟩⟩

/-- Only equal dependencies can merge to one that nothing satisfies. -/
theorem Merged.satisfiable_iff {cs : List Dependency} {m : Dependency} (h : Merged cs m) :
    m.Satisfiable ↔ ∀ c ∈ cs, (∀ e ∈ cs, e = c) → c.Satisfiable := by
  constructor
  · intro hm c hc hall
    exact h.eq_of_not_mixed (not_mixed_of_uniform hall) hc ▸ hm
  · intro hc
    rcases h.tightest with hall | ⟨_, t, ht, hs⟩
    · obtain ⟨c, hmem⟩ := List.exists_mem_of_ne_nil cs h.nonempty
      have hcm := hall c hmem
      subst hcm
      exact hc c hmem hall
    · exact satisfiable_of_sound ht.terms hs

end Dependency

namespace Resolver

theorem mark_satisfiable {r : Resolver} {declared : List Dependency} {d : Dependency} :
    (r.mark declared d).Satisfiable ↔ d.Satisfiable := by
  unfold mark
  split
  · exact Dependency.asOptional_satisfiable
  · exact Iff.rfl

/-- What is reported can be satisfied, except where all that is known of a product is one dependency
that cannot: nothing is merged there, and so nothing is checked. -/
theorem report_satisfiable_iff {r : Resolver} {declared discovered : List Dependency}
    {res : Resolution} (h : r.resolve declared discovered = .ok res) :
    (∀ e ∈ res.report.dependencies, e.Satisfiable) ↔
      ∀ c ∈ declared ++ discovered, c.product ≠ r.product → c.product ∉ r.ignored →
        (∀ e ∈ declared ++ discovered, e.product = c.product → e = c) → c.Satisfiable := by
  have hr := resolve_resolved h
  constructor
  · intro hall c hc hforeign hheeded halone
    obtain ⟨m, hm, hp⟩ := hr.complete c hc hforeign hheeded
    have hsat := mark_satisfiable.mp (hall _ ((hr.entries _).mpr ⟨m, hm, rfl⟩))
    apply (hm.merged hr.sensible).satisfiable_iff.mp hsat c (mem_on.mpr ⟨hc, hp.symm⟩)
    intro e he
    obtain ⟨he, hep⟩ := mem_on.mp he
    exact halone e he (hep.trans hp)
  · intro hc e he
    obtain ⟨m, hm, rfl⟩ := (hr.entries e).mp he
    rw [mark_satisfiable, (hm.merged hr.sensible).satisfiable_iff]
    intro c hmem halone
    obtain ⟨hmem, hp⟩ := mem_on.mp hmem
    obtain ⟨hforeign, hheeded⟩ := hm.foreign hr.sensible
    apply hc c hmem (hp ▸ hforeign) (hp ▸ hheeded)
    intro e he hep
    exact halone e (mem_on.mpr ⟨he, hep.trans hp⟩)

/-- No version lies between the bounds of this dependency. -/
def inverted : Dependency :=
  .ofFields ⟨"com.example", "lib", "2.0.0", "1.0.0", none, false⟩ rfl

/-- Nobody can choose a version for a lone dependency with inverted bounds, and it is reported. -/
theorem inverted_is_reported : ∃ res, Resolver.resolve { product := app } [] [inverted] = .ok res ∧
    ∃ e ∈ res.report.dependencies, ¬ e.Satisfiable := by
  refine ⟨⟨.of [inverted], []⟩, rfl, inverted, List.mem_cons_self, ?_⟩
  intro h
  have hfalse : withinMaximum inverted.minimum inverted.maximum = .ok false := rfl
  exact absurd (hfalse.symm.trans h.window) (by simp)

theorem report_satisfiable_iff_inverted :
    Resolver.resolve { product := app } [] [inverted] = .ok ⟨.of [inverted], []⟩ ∧
    ((∀ e ∈ (Report.of [inverted]).dependencies, e.Satisfiable) ↔
      ∀ c ∈ [] ++ [inverted], c.product ≠ app → c.product ∉ [] →
        (∀ e ∈ [] ++ [inverted], e.product = c.product → e = c) → c.Satisfiable) := by
  have h : Resolver.resolve { product := app } [] [inverted] = .ok ⟨.of [inverted], []⟩ := rfl
  exact ⟨h, report_satisfiable_iff h⟩

end Resolver

end ProductLock
