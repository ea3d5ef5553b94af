import ProductLock.Proofs.Dependency.Conflict
import ProductLock.Proofs.Resolution.Contents

namespace ProductLock.Resolver

open Dependency Version

theorem absorb_error {d : Dependency} {ds : List Dependency} {f : Failure}
    (h : absorb d ds = .error f) : ∃ e ∈ ds, e.product = d.product ∧ e.merge d = .error f := by
  induction ds with
  | nil => contradiction
  | cons e es ih =>
    unfold absorb at h
    split at h
    · next he =>
      rcases bind_error.mp h with hm | ⟨_, _, h⟩
      · exact ⟨e, List.mem_cons_self, he, hm⟩
      · contradiction
    · rcases bind_error.mp h with hes | ⟨_, _, h⟩
      · obtain ⟨e', he', hp, hm⟩ := ih hes
        exact ⟨e', List.mem_cons_of_mem e he', hp, hm⟩
      · contradiction

/-- Gathering fails where one dependency cannot be merged with what those before it came to. -/
theorem Gathered.fold_error {seen found ds : List Dependency} {f : Failure}
    (h : Gathered seen found)
    (hf : ds.foldlM (fun es d => Resolver.absorb d es) found = .error f) :
    ∃ e cs d, Folded cs e ∧ (∀ c ∈ cs, c ∈ seen ++ ds) ∧ d ∈ ds ∧ e.product = d.product ∧
      e.merge d = .error f := by
  induction ds generalizing seen found with
  | nil => contradiction
  | cons d ds ih =>
    rcases bind_error.mp hf with habsorb | ⟨mid, hmid, hf⟩
    · obtain ⟨e, he, hp, hm⟩ := absorb_error habsorb
      have hfolded := (h.lookup _ e).mp (lookup_of_mem h.nodup he)
      refine ⟨e, _, d, hfolded, ?_, List.mem_cons_self, hp, hm⟩
      intro c hc
      exact List.mem_append_left _ (mem_on.mp hc).1
    · obtain ⟨e, cs, d', hfolded, hcs, hd', hp, hm⟩ := ih (h.absorb hmid) hf
      rw [← List.append_cons] at hcs
      exact ⟨e, cs, d', hfolded, hcs, List.mem_cons_of_mem d hd', hp, hm⟩

theorem gather_error {r : Resolver} {ds : List Dependency} {f : Failure}
    (h : r.gather ds = .error f) :
    ∃ e cs d, Folded cs e ∧ (∀ c ∈ cs, c ∈ ds) ∧ d ∈ ds ∧ d.product ≠ r.product ∧
      e.product = d.product ∧ e.merge d = .error f := by
  obtain ⟨e, cs, d, hfolded, hcs, hd, hp, hm⟩ := Gathered.empty.fold_error h
  obtain ⟨hd, hforeign⟩ := List.mem_filter.mp hd
  exact ⟨e, cs, d, hfolded, fun c hc => (List.mem_filter.mp (hcs c hc)).1, hd,
    of_decide_eq_true hforeign, hp, hm⟩

theorem combine_error {declared : List Dependency} {d : Dependency} {f : Failure}
    (h : combine declared d = .error f) :
    ∃ own, lookup d.product declared = some own ∧ own.merge d = .error f := by
  unfold combine at h
  split at h
  · contradiction
  · next own hown =>
    rcases bind_error.mp h with hm | ⟨_, _, h⟩
    · exact ⟨own, hown, hm⟩
    · contradiction

/-- After sensible declarations, only the merge of two dependencies on a foreign product can fail:
one that was discovered, or what several came to, with what was known of its product before. -/
theorem resolve_error {r : Resolver} {declared discovered : List Dependency} {f : Failure}
    (hs : r.Sensible declared) (h : r.resolve declared discovered = .error f) :
    ∃ a b as bs, Merged as a ∧ Merged bs b ∧ (∀ c ∈ as ++ bs, c ∈ declared ++ discovered) ∧
      b.product ≠ r.product ∧ a.product = b.product ∧ a.merge b = .error f := by
  rcases resolve_eq_error.mp h with hchecked | ⟨_, hgather | ⟨gathered, hg, hcombine⟩⟩
  · rw [checkAllDeclared_sensible.mpr hs] at hchecked
    contradiction
  · obtain ⟨e, cs, d, hfolded, hcs, hd, hforeign, hp, hm⟩ := gather_error hgather
    refine ⟨e, d, cs, [d], hfolded.merged, .single d, ?_, hforeign, hp, hm⟩
    intro c hc
    apply List.mem_append_right
    rcases List.mem_append.mp hc with hc | hc
    · exact hcs c hc
    · exact List.mem_singleton.mp hc ▸ hd
  · obtain ⟨before, d, after, hsplit, _, hfail⟩ := mapM_error.mp hcombine
    have hd : d ∈ gathered.filter fun d => d.product ∉ r.ignored :=
      hsplit ▸ List.mem_append_right before List.mem_cons_self
    obtain ⟨own, hown, hm⟩ := combine_error hfail
    obtain ⟨hown, hp⟩ := lookup_mem hown
    obtain ⟨hforeign, _, hfolded⟩ := ((gather_found hg).mem d).mp hd
    refine ⟨own, d, [own], _, .single own, hfolded.merged, ?_, hforeign, hp, hm⟩
    intro c hc
    rcases List.mem_append.mp hc with hc | hc
    · exact List.mem_append_left _ (List.mem_singleton.mp hc ▸ hown)
    · exact List.mem_append_right _ (mem_on.mp hc).1

/-- An admitted declaration can be computed with if its recommendation is within the digit limit. -/
theorem Admitted.exists_terms {r : Resolver} {d : Dependency} (h : r.Admitted d)
    (hfits : ∀ v, d.recommended = some v → fits v = true) : ∃ t, d.terms = some t := by
  obtain ⟨⟨l, u, hl, hu, _⟩, horderable⟩ := checkMergeable_ok.mp h.mergeable
  obtain ⟨p, hp⟩ := exists_preference fun v hv => ⟨horderable v hv, hfits v hv⟩
  exact ⟨⟨l, u, p⟩, terms_eq_some.mpr ⟨hl, hu, hp⟩⟩

/-- Once the declarations have been admitted, resolution fails with a conflict and with nothing else,
exactly if on some foreign product, be it ignored, the dependencies differ and no version lies in all
of their windows. -/
theorem resolve_conflict_iff {r : Resolver} {declared discovered : List Dependency}
    (hchecked : checkAllDeclared r [] declared = .ok ())
    (hfits : ∀ d ∈ declared, ∀ v, d.recommended = some v → fits v = true)
    (hd : ∀ d ∈ discovered, d.Mergeable) :
    (∀ f, r.resolve declared discovered = .error f → ∃ id, id ≠ r.product ∧ IsConflict id f) ∧
    ((∃ f, r.resolve declared discovered = .error f) ↔ ∃ id, id ≠ r.product ∧
      Mixed (on id (declared ++ discovered)) ∧
        ¬ ∃ v, isOrderable v = true ∧ ∀ c ∈ on id (declared ++ discovered), c.Admits v) := by
  have hs := checkAllDeclared_sensible.mp hchecked
  have hcomputable : ∀ c ∈ declared ++ discovered, ∃ t, c.terms = some t := by
    intro c hc
    rcases List.mem_append.mp hc with hc | hc
    · exact (hs.admitted c hc).exists_terms (hfits c hc)
    · exact (hd c hc).exists_terms
  constructor
  · intro f hf
    obtain ⟨a, b, as, bs, ha, hb, hmem, hforeign, hp, hm⟩ := resolve_error hs hf
    obtain ⟨s, hs⟩ := ha.exists_terms fun c hc => hcomputable c (hmem c (List.mem_append_left _ hc))
    obtain ⟨t, ht⟩ := hb.exists_terms fun c hc => hcomputable c (hmem c (List.mem_append_right _ hc))
    exact ⟨a.product, hp ▸ hforeign, merge_error hp hs ht hm⟩
  · have hfails : (∃ f, r.resolve declared discovered = .error f) ↔
        ¬ ∃ res, r.resolve declared discovered = .ok res := by
      cases r.resolve declared discovered <;> simp
    rw [hfails, exists_resolve, not_and, imp_iff_right hs]
    simp only [not_forall, exists_prop]
    apply exists_congr
    intro id
    apply and_congr_right
    intro _
    exact not_compatible_iff fun c hc => hcomputable c (mem_on.mp hc).1

/-- A declaration and a recommendation that leave no version of the same product. -/
def pinned : Dependency :=
  .ofFields ⟨"com.example", "lib", "1.0.0", "1.x.x", some "1.1.0", false⟩ rfl

def advanced : Dependency :=
  .ofFields ⟨"com.example", "lib", "2.0.0", "2.x.x", none, false⟩ rfl

theorem advanced_mergeable : advanced.Mergeable where
  minimum := by decide +kernel
  maximum := by decide +kernel
  recommended := by decide +kernel

theorem resolve_conflict_iff_pinned :
    let r : Resolver := { product := app }
    checkAllDeclared r [] [pinned] = .ok () ∧
    (∀ d ∈ [pinned], ∀ v, d.recommended = some v → fits v = true) ∧
    (∀ d ∈ [advanced], d.Mergeable) ∧
    (∀ f, r.resolve [pinned] [advanced] = .error f → ∃ id, id ≠ r.product ∧ IsConflict id f) ∧
    ((∃ f, r.resolve [pinned] [advanced] = .error f) ↔ ∃ id, id ≠ r.product ∧
      Mixed (on id ([pinned] ++ [advanced])) ∧
        ¬ ∃ v, isOrderable v = true ∧ ∀ c ∈ on id ([pinned] ++ [advanced]), c.Admits v) := by
  intro r
  have hchecked : checkAllDeclared r [] [pinned] = .ok () := rfl
  have hfits : ∀ d ∈ [pinned], ∀ v, d.recommended = some v → fits v = true := by
    decide +kernel
  have hd : ∀ d ∈ [advanced], d.Mergeable := by
    simpa using advanced_mergeable
  exact ⟨hchecked, hfits, hd, resolve_conflict_iff hchecked hfits hd⟩

end ProductLock.Resolver
