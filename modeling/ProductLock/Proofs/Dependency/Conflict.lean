import Mathlib.Data.Set.Finite.Lemmas
import ProductLock.Proofs.Dependency.Merged

namespace ProductLock.Dependency

open Version

/-- A version that the window of a dependency leaves open. -/
def Admits (d : Dependency) (v : String) : Prop :=
  inWindow d.minimum d.maximum v = .ok true

theorem admits_iff {d : Dependency} {s : Terms} {v : String} (hs : d.terms = some s) :
    d.Admits v ↔ ∃ b, level v = some b ∧ s.lowest ≤ b ∧ b ≤ s.highest := by
  obtain ⟨hl, hh, _⟩ := terms_eq_some.mp hs
  simp only [Admits, inWindow_ok hl hh, decide_eq_true_eq]

/-- Among dependencies that can be computed with, one has the greatest minimum. -/
theorem exists_greatest_minimum {cs : List Dependency} (hne : cs ≠ [])
    (hc : ∀ c ∈ cs, ∃ s, c.terms = some s) :
    ∃ c ∈ cs, ∃ s, c.terms = some s ∧ ∀ t ∈ termsOf cs, t.lowest ≤ s.lowest := by
  obtain ⟨c, hmem⟩ := List.exists_mem_of_ne_nil cs hne
  obtain ⟨s, hs⟩ := hc c hmem
  have hsome : {t | t ∈ termsOf cs}.Nonempty := ⟨s, mem_termsOf.mpr ⟨c, hmem, hs⟩⟩
  obtain ⟨t, ht, hmax⟩ :=
    Set.exists_max_image _ Terms.lowest (List.finite_toSet (termsOf cs)) hsome
  obtain ⟨d, hd, hdt⟩ := mem_termsOf.mp ht
  exact ⟨d, hd, t, hdt, hmax⟩

/-- Dependencies on one product exclude each other exactly if they differ and no version lies in all
of their windows. -/
theorem not_compatible_iff {cs : List Dependency} (hc : ∀ c ∈ cs, ∃ s, c.terms = some s) :
    ¬ Compatible cs ↔
      Mixed cs ∧ ¬ ∃ v, isOrderable v = true ∧ ∀ c ∈ cs, c.Admits v := by
  constructor
  · intro hn
    have hmix : Mixed cs := not_not.mp fun hm => hn (.inl hm)
    refine ⟨hmix, ?_⟩
    rintro ⟨v, _, hall⟩
    refine hn (.inr ⟨hc, fun s hs t ht => ?_⟩)
    obtain ⟨c, hcs, hs⟩ := mem_termsOf.mp hs
    obtain ⟨d, hds, ht⟩ := mem_termsOf.mp ht
    obtain ⟨b, hb, hlow, _⟩ := (admits_iff hs).mp (hall c hcs)
    obtain ⟨b', hb', _, hhigh⟩ := (admits_iff ht).mp (hall d hds)
    rw [hb, Option.some.injEq] at hb'
    exact hlow.trans (hb' ▸ hhigh)
  · intro h hcompat
    obtain ⟨hmix, hnone⟩ := h
    obtain ⟨_, hwindow⟩ := hcompat.resolve_left (not_not_intro hmix)
    obtain ⟨c, hmem, _⟩ := hmix
    -- The greatest of the minimums is itself a version that all of them leave open.
    obtain ⟨d, hd, s, hs, hmax⟩ := exists_greatest_minimum (List.ne_nil_of_mem hmem) hc
    have hlevel : level d.minimum = some s.lowest := (terms_eq_some.mp hs).1
    refine hnone ⟨d.minimum, isOrderable_of_level hlevel, fun e he => ?_⟩
    obtain ⟨t, ht⟩ := hc e he
    have htmem : t ∈ termsOf cs := mem_termsOf.mpr ⟨e, he, ht⟩
    exact (admits_iff ht).mpr
      ⟨s.lowest, hlevel, hmax t htmem, hwindow s (mem_termsOf.mpr ⟨d, hd, hs⟩) t htmem⟩

/-- Different terms that no version satisfies are those of a clash. -/
theorem exists_clash {a b : Dependency} {s t : Terms} (hp : a.product = b.product) (hne : a ≠ b)
    (hs : a.terms = some s) (ht : b.terms = some t)
    (hlt : (s.meet t).highest < (s.meet t).lowest) :
    ∃ minimum maximum, Clash a b minimum maximum := by
  obtain ⟨hsl, hsh, _⟩ := terms_eq_some.mp hs
  obtain ⟨htl, hth, _⟩ := terms_eq_some.mp ht
  obtain ⟨_, _, _, _, hl, hh⟩ := exists_bounds hsl htl hsh hth
  exact ⟨_, _, hp, hne, _, _, _, _, hsl, htl, hsh, hth, hl, hh, hlt⟩

/-- Two dependencies on one product between whose bounds no version is left. -/
def IsConflict (id : ProductId) (f : Failure) : Prop :=
  ∃ a b minimum maximum, f = .rangeConflict a b minimum maximum ∧ a.product = id ∧
    b.product = id ∧ withinMaximum minimum maximum = .ok false

/-- Nothing but a conflict keeps dependencies that can be computed with from being merged. -/
theorem merge_error {a b : Dependency} {s t : Terms} {f : Failure} (hp : a.product = b.product)
    (hs : a.terms = some s) (ht : b.terms = some t) (h : a.merge b = .error f) :
    IsConflict a.product f := by
  by_cases hle : (s.meet t).lowest ≤ (s.meet t).highest
  · obtain ⟨m, hm⟩ := exists_merge hp hs ht hle
    rw [hm] at h
    contradiction
  · have hne : a ≠ b := by
      rintro rfl
      rw [merge_self] at h
      contradiction
    obtain ⟨minimum, maximum, hclash⟩ := exists_clash hp hne hs ht (not_le.mp hle)
    rw [merge_of_clash hclash] at h
    exact ⟨a, b, minimum, maximum, (Except.error.inj h).symm, rfl, hp.symm, hclash.beyond⟩

end ProductLock.Dependency
