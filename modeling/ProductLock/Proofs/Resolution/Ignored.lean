import ProductLock.Proofs.Resolution.Entries

namespace ProductLock.Resolver

open Dependency

/-- The dependencies on products that are not ignored. -/
def heeded (r : Resolver) (ds : List Dependency) : List Dependency :=
  ds.filter fun d => d.product ∉ r.ignored

theorem heeded_cons_of_heeded {r : Resolver} {d : Dependency} (h : d.product ∉ r.ignored)
    (ds : List Dependency) : r.heeded (d :: ds) = d :: r.heeded ds :=
  List.filter_cons_of_pos (decide_eq_true h)

theorem heeded_cons_of_ignored {r : Resolver} {d : Dependency} (h : d.product ∈ r.ignored)
    (ds : List Dependency) : r.heeded (d :: ds) = r.heeded ds :=
  List.filter_cons_of_neg (by simpa using h)

theorem heeded_heeded (r : Resolver) (ds : List Dependency) :
    r.heeded (r.heeded ds) = r.heeded ds := by
  simp [heeded]

theorem on_heeded {r : Resolver} {id : ProductId} (ds : List Dependency) (h : id ∈ r.ignored) :
    on id (r.heeded ds) = [] := by
  rw [List.eq_nil_iff_forall_not_mem]
  intro d hd
  obtain ⟨hmem, hp⟩ := mem_on.mp hd
  have hheeded : d.product ∉ r.ignored := of_decide_eq_true (List.mem_filter.mp hmem).2
  exact hheeded (hp ▸ h)

/-- What an ignored dependency does to those found does not concern the others. -/
theorem heeded_absorb_of_ignored {r : Resolver} {d : Dependency} {found next : List Dependency}
    (hd : d.product ∈ r.ignored) (h : absorb d found = .ok next) :
    r.heeded next = r.heeded found := by
  induction found generalizing next with
  | nil =>
    cases h
    exact heeded_cons_of_ignored hd []
  | cons e es ih =>
    unfold absorb at h
    split at h
    · next he =>
      obtain ⟨m, hm, h⟩ := bind_ok.mp h
      cases h
      have hmerged : m.product ∈ r.ignored := merge_product hm ▸ he ▸ hd
      rw [heeded_cons_of_ignored hmerged, heeded_cons_of_ignored (he ▸ hd)]
    · obtain ⟨rest, hrest, h⟩ := bind_ok.mp h
      cases h
      by_cases he : e.product ∈ r.ignored
      · rw [heeded_cons_of_ignored he, heeded_cons_of_ignored he, ih hrest]
      · rw [heeded_cons_of_heeded he, heeded_cons_of_heeded he, ih hrest]

/-- A dependency that is not ignored is absorbed, or refused, as if no ignored one had been found. -/
theorem heeded_absorb {r : Resolver} {d : Dependency} (hd : d.product ∉ r.ignored)
    (found : List Dependency) : r.heeded <$> absorb d found = absorb d (r.heeded found) := by
  induction found with
  | nil => exact congrArg Except.ok (heeded_cons_of_heeded hd [])
  | cons e es ih =>
    by_cases he : e.product = d.product
    · have hheeded : e.product ∉ r.ignored := he ▸ hd
      rw [heeded_cons_of_heeded hheeded, absorb, absorb, if_pos he, if_pos he]
      cases hm : e.merge d with
      | error f => rfl
      | ok m => exact congrArg Except.ok (heeded_cons_of_heeded (merge_product hm ▸ hheeded) es)
    · rw [absorb, if_neg he]
      by_cases hign : e.product ∈ r.ignored
      · rw [heeded_cons_of_ignored hign, ← ih]
        cases absorb d es with
        | error f => rfl
        | ok rest => exact congrArg Except.ok (heeded_cons_of_ignored hign rest)
      · rw [heeded_cons_of_heeded hign, absorb, if_neg he, ← ih]
        cases absorb d es with
        | error f => rfl
        | ok rest => exact congrArg Except.ok (heeded_cons_of_heeded hign rest)

/-- As long as ignored dependencies can be merged with one another, whether and how gathering fails
and what else is found does not depend on them. -/
theorem Gathered.heeded_fold {r : Resolver} {seen found ds : List Dependency}
    (h : Gathered seen found) (hc : ∀ id ∈ r.ignored, Compatible (on id (seen ++ ds))) :
    r.heeded <$> ds.foldlM (fun es d => Resolver.absorb d es) found =
      (r.heeded ds).foldlM (fun es d => Resolver.absorb d es) (r.heeded found) := by
  induction ds generalizing seen found with
  | nil => rfl
  | cons d ds ih =>
    have hnext : ∀ id ∈ r.ignored, Compatible (on id (seen ++ [d] ++ ds)) := by
      rwa [← List.append_cons]
    by_cases hd : d.product ∈ r.ignored
    · obtain ⟨mid, hmid⟩ := h.exists_absorb (hc d.product hd)
      rw [heeded_cons_of_ignored hd, List.foldlM_cons, hmid, ← heeded_absorb_of_ignored hd hmid]
      exact ih (h.absorb hmid) hnext
    · rw [heeded_cons_of_heeded hd, List.foldlM_cons, List.foldlM_cons, ← heeded_absorb hd]
      cases hmid : Resolver.absorb d found with
      | error f => rfl
      | ok mid => exact ih (h.absorb hmid) hnext

theorem heeded_gather {r : Resolver} {ds : List Dependency}
    (hc : ∀ id ∈ r.ignored, id ≠ r.product → Compatible (on id ds)) :
    r.heeded <$> r.gather ds = r.gather (r.heeded ds) := by
  have hforeign : ∀ id ∈ r.ignored,
      Compatible (on id ([] ++ ds.filter fun d => d.product ≠ r.product)) := by
    intro id hid
    rw [List.nil_append]
    by_cases hown : id = r.product
    · rw [hown, on_own]
      exact .inl fun hm => nomatch hm
    · rw [on_foreign ds hown]
      exact hc id hid hown
  have hcomm : r.heeded (ds.filter fun d => d.product ≠ r.product) =
      (r.heeded ds).filter fun d => d.product ≠ r.product := by
    simp only [heeded, List.filter_filter, Bool.and_comm]
  unfold gather
  rw [Gathered.empty.heeded_fold hforeign, hcomm]
  rfl

/-- Resolution sees of what was gathered only what is not ignored. -/
theorem resolve_congr {r : Resolver} {ds es : List Dependency} (declared : List Dependency)
    (h : r.heeded <$> r.gather ds = r.heeded <$> r.gather es) :
    r.resolve declared ds = r.resolve declared es := by
  unfold resolve
  cases hds : r.gather ds <;> cases hes : r.gather es <;> rw [hds, hes] at h
  · rw [Except.error.inj h]
  · contradiction
  · contradiction
  · next found found' =>
    have hfound : (found.filter fun d => d.product ∉ r.ignored) =
        found'.filter fun d => d.product ∉ r.ignored := Except.ok.inj h
    simp only [hfound, bind, Except.bind]

/-- Without the recommendations for ignored products resolution comes out the same, failures included,
as long as those on each ignored product could be merged. Otherwise it fails with them. -/
theorem resolve_heeded {r : Resolver} {declared discovered : List Dependency} :
    ((∀ id ∈ r.ignored, id ≠ r.product → Compatible (on id discovered)) →
      r.resolve declared discovered = r.resolve declared (r.heeded discovered)) ∧
    ∀ res, r.resolve declared discovered = .ok res ↔
      r.resolve declared (r.heeded discovered) = .ok res ∧
        ∀ id ∈ r.ignored, id ≠ r.product → Compatible (on id discovered) := by
  have hsame : (∀ id ∈ r.ignored, id ≠ r.product → Compatible (on id discovered)) →
      r.resolve declared discovered = r.resolve declared (r.heeded discovered) := by
    intro hc
    have hnone : ∀ id ∈ r.ignored, id ≠ r.product → Compatible (on id (r.heeded discovered)) := by
      intro id hid _
      rw [on_heeded discovered hid]
      exact .inl fun hm => nomatch hm
    apply resolve_congr
    rw [heeded_gather hc, heeded_gather hnone, heeded_heeded]
  refine ⟨hsame, fun res => ?_⟩
  constructor
  · intro h
    have hc : ∀ id ∈ r.ignored, id ≠ r.product → Compatible (on id discovered) := by
      intro id _ hforeign
      apply ((exists_resolve.mp ⟨res, h⟩).2 id hforeign).mono
      intro c hc
      rw [on_append]
      exact List.mem_append_right _ hc
    exact ⟨hsame hc ▸ h, hc⟩
  · intro h
    rw [hsame h.2]
    exact h.1

/-- Two recommendations for one product that no version satisfies. -/
def outdated : Dependency :=
  .ofFields ⟨"com.example", "legacy", "1.0.0", "1.x.x", none, false⟩ rfl

def renewed : Dependency :=
  .ofFields ⟨"com.example", "legacy", "2.0.0", "2.x.x", none, false⟩ rfl

/-- Though the product is ignored, its recommendations are merged first, and their conflict ends the
resolution. -/
theorem ignored_conflict_is_fatal :
    Resolver.resolve { product := app, ignored := [outdated.product] } [] [outdated, renewed] =
      .error (.rangeConflict outdated renewed "2.0.0" "1.x.x") ∧
    Resolver.resolve { product := app, ignored := [outdated.product] } []
      (heeded { product := app, ignored := [outdated.product] } [outdated, renewed]) =
        .ok ⟨.of [], []⟩ :=
  ⟨rfl, rfl⟩

end ProductLock.Resolver
