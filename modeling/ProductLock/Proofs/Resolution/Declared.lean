import ProductLock.Proofs.Resolution.Gather

namespace ProductLock.Resolver

open Version

/-- Merging can compute with a declaration, and its window holds some version. -/
theorem checkMergeable_ok {d : Dependency} : checkMergeable d = .ok () ↔
    (∃ l h, level d.minimum = some l ∧ ceiling d.maximum = some h ∧ l ≤ h) ∧
      ∀ v, d.recommended = some v → isOrderable v = true := by
  have hwithin : (∃ q, withinMaximum d.minimum d.maximum = .ok q ∧ q = true) ↔
      ∃ l h, level d.minimum = some l ∧ ceiling d.maximum = some h ∧ l ≤ h := by
    simp only [exists_eq_right, withinMaximum_ok, decide_eq_true_eq]
  have hversions : (∃ l h, level d.minimum = some l ∧ ceiling d.maximum = some h ∧ l ≤ h) →
      isOrderable d.minimum = true ∧ (isOrderable d.maximum = true ∨ isMatcher d.maximum = true) := by
    intro hx
    obtain ⟨l, h, hl, hh, _⟩ := hx
    exact ⟨isOrderable_of_level hl, isOrderable_or_isMatcher_of_ceiling hh⟩
  cases hr : d.recommended with
  | none =>
    simp only [checkMergeable, hr, guard_ok, bind_ok, last_guard_ok, not_not, hwithin]
    simp only [reduceCtorEq, false_implies, implies_true, and_true]
    exact ⟨fun h => h.2.2, fun h => ⟨(hversions h).1, (hversions h).2, h⟩⟩
  | some v =>
    simp only [checkMergeable, hr, guard_ok, bind_ok, last_guard_ok, not_not, hwithin,
      Option.some.injEq, forall_eq']
    exact ⟨fun h => ⟨h.2.2.2, h.2.2.1⟩,
      fun h => ⟨(hversions h.1).1, (hversions h.1).2, h.2, h.1⟩⟩

/-- A declaration that nothing in the resolver speaks against. -/
structure Admitted (r : Resolver) (d : Dependency) : Prop where
  foreign : d.product ≠ r.product
  heeded : d.product ∉ r.ignored
  settled : ¬ (d.product ∈ r.optional ∧ d.optional = false ∧ r.policy = .reject)
  mergeable : checkMergeable d = .ok ()

theorem checkDeclared_ok {r : Resolver} {earlier : List Dependency} {d : Dependency} :
    checkDeclared r earlier d = .ok () ↔ r.Admitted d ∧ ∀ e ∈ earlier, e.product ≠ d.product := by
  rw [← lookup_eq_none]
  unfold checkDeclared
  constructor
  · intro h
    split at h
    · contradiction
    · next hown =>
      split at h
      · contradiction
      · next hnone =>
        split at h
        · contradiction
        · next hign =>
          split at h
          · contradiction
          · next hopt => exact ⟨⟨hown, hign, hopt, h⟩, hnone⟩
  · intro h
    obtain ⟨ha, hnone⟩ := h
    rw [if_neg ha.foreign, hnone]
    simp only [if_neg ha.heeded, if_neg ha.settled]
    exact ha.mergeable

theorem checkAllDeclared_ok {r : Resolver} {earlier ds : List Dependency} :
    checkAllDeclared r earlier ds = .ok () ↔ (∀ d ∈ ds, r.Admitted d) ∧
      (∀ d ∈ ds, ∀ e ∈ earlier, e.product ≠ d.product) ∧ (ds.map Dependency.product).Nodup := by
  induction ds generalizing earlier with
  | nil => simp [checkAllDeclared]
  | cons d ds ih =>
    simp only [checkAllDeclared, check_ok, checkDeclared_ok, ih, List.forall_mem_cons,
      List.map_cons, List.nodup_cons, List.mem_append, List.mem_singleton, List.mem_map]
    constructor
    · intro h
      obtain ⟨⟨ha, hd⟩, has, hds, hn⟩ := h
      refine ⟨⟨ha, has⟩, ⟨hd, fun e he f hf => hds e he f (.inl hf)⟩, ?_, hn⟩
      intro hx
      obtain ⟨e, he, hed⟩ := hx
      exact hds e he d (.inr rfl) hed.symm
    · intro h
      obtain ⟨⟨ha, has⟩, ⟨hd, hds⟩, hnew, hn⟩ := h
      refine ⟨⟨ha, hd⟩, has, ?_, hn⟩
      intro e he f hf
      rcases hf with hf | rfl
      · exact hds e he f hf
      · exact fun hfe => hnew ⟨e, he, hfe.symm⟩

end ProductLock.Resolver
