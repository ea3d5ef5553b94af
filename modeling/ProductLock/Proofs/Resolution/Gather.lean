import Mathlib.Data.List.Nodup
import ProductLock.Proofs.Dependency.Fields
import ProductLock.Proofs.Dependency.Folded
import ProductLock.Resolution

namespace ProductLock.Resolver

open Dependency

/-- The dependencies on one product, in their order. -/
def on (id : ProductId) (ds : List Dependency) : List Dependency :=
  ds.filter fun d => d.product = id

theorem mem_on {id : ProductId} {ds : List Dependency} {d : Dependency} :
    d ∈ on id ds ↔ d ∈ ds ∧ d.product = id := by
  simp [on]

theorem on_append (id : ProductId) (cs ds : List Dependency) :
    on id (cs ++ ds) = on id cs ++ on id ds :=
  List.filter_append cs ds

theorem on_self (d : Dependency) : on d.product [d] = [d] := by
  simp [on]

theorem on_other {id : ProductId} {d : Dependency} (h : id ≠ d.product) : on id [d] = [] := by
  simp [on, Ne.symm h]

theorem lookup_mem {id : ProductId} {ds : List Dependency} {d : Dependency}
    (h : lookup id ds = some d) : d ∈ ds ∧ d.product = id :=
  ⟨List.mem_of_find?_eq_some h, by simpa using List.find?_some h⟩

theorem lookup_eq_none {id : ProductId} {ds : List Dependency} :
    lookup id ds = none ↔ ∀ d ∈ ds, d.product ≠ id := by
  simp [lookup]

/-- Where every product occurs once, a member is what is found for its product. -/
theorem lookup_of_mem {ds : List Dependency} {d : Dependency}
    (hn : (ds.map Dependency.product).Nodup) (hd : d ∈ ds) : lookup d.product ds = some d := by
  cases hl : lookup d.product ds with
  | none => exact absurd rfl (lookup_eq_none.mp hl d hd)
  | some e =>
    obtain ⟨he, hp⟩ := lookup_mem hl
    rw [List.inj_on_of_nodup_map hn he hd hp]

theorem absorb_other {d : Dependency} {ds next : List Dependency} {id : ProductId}
    (h : absorb d ds = .ok next) (hid : id ≠ d.product) : lookup id next = lookup id ds := by
  induction ds generalizing next with
  | nil =>
    cases h
    simp [lookup, Ne.symm hid]
  | cons e es ih =>
    unfold absorb at h
    split at h
    · next he =>
      obtain ⟨m, hm, h⟩ := bind_ok.mp h
      cases h
      have hmp : m.product = d.product := he ▸ merge_product hm
      simp [lookup, he, hmp, Ne.symm hid]
    · next he =>
      obtain ⟨rest, hrest, h⟩ := bind_ok.mp h
      cases h
      have := ih hrest
      simp only [lookup, List.find?_cons] at this ⊢
      rw [this]

theorem absorb_self {d : Dependency} {ds next : List Dependency} (h : absorb d ds = .ok next) :
    ∃ m, lookup d.product next = some m ∧
      ((lookup d.product ds = none ∧ m = d) ∨
        ∃ e, lookup d.product ds = some e ∧ e.merge d = .ok m) := by
  induction ds generalizing next with
  | nil =>
    cases h
    exact ⟨d, by simp [lookup], .inl ⟨rfl, rfl⟩⟩
  | cons e es ih =>
    unfold absorb at h
    split at h
    · next he =>
      obtain ⟨m, hm, h⟩ := bind_ok.mp h
      cases h
      have hmp : m.product = d.product := he ▸ merge_product hm
      exact ⟨m, by simp [lookup, hmp], .inr ⟨e, by simp [lookup, he], hm⟩⟩
    · next he =>
      obtain ⟨rest, hrest, h⟩ := bind_ok.mp h
      cases h
      obtain ⟨m, hm⟩ := ih hrest
      refine ⟨m, ?_⟩
      simpa [lookup, he] using hm

theorem absorb_products {d : Dependency} {ds next : List Dependency}
    (h : absorb d ds = .ok next) : next.map Dependency.product =
      if d.product ∈ ds.map Dependency.product then ds.map Dependency.product
      else ds.map Dependency.product ++ [d.product] := by
  induction ds generalizing next with
  | nil =>
    cases h
    simp
  | cons e es ih =>
    unfold absorb at h
    split at h
    · next he =>
      obtain ⟨m, hm, h⟩ := bind_ok.mp h
      cases h
      simp [he, merge_product hm]
    · next he =>
      obtain ⟨rest, hrest, h⟩ := bind_ok.mp h
      cases h
      rw [List.map_cons, ih hrest]
      have he' : d.product ≠ e.product := Ne.symm he
      simp only [List.map_cons, List.mem_cons, he', false_or]
      split <;> rfl

theorem exists_absorb {d : Dependency} {ds : List Dependency}
    (h : ∀ e, lookup d.product ds = some e → ∃ m, e.merge d = .ok m) :
    ∃ next, absorb d ds = .ok next := by
  induction ds with
  | nil => exact ⟨[d], rfl⟩
  | cons e es ih =>
    unfold absorb
    split
    · next he =>
      obtain ⟨m, hm⟩ := h e (by simp [lookup, he])
      exact ⟨m :: es, bind_ok.mpr ⟨m, hm, rfl⟩⟩
    · next he =>
      obtain ⟨next, hnext⟩ := ih fun f hf => h f (by simpa [lookup, he] using hf)
      exact ⟨e :: next, bind_ok.mpr ⟨next, hnext, rfl⟩⟩

/-- One dependency for each product seen: what those on the product merge to, in their order. -/
structure Gathered (seen found : List Dependency) : Prop where
  nodup : (found.map Dependency.product).Nodup
  lookup : ∀ id m, lookup id found = some m ↔ Folded (on id seen) m
  none : ∀ id, Resolver.lookup id found = none → on id seen = []

theorem Gathered.empty : Gathered [] [] where
  nodup := .nil
  lookup _ _ := by simp [Resolver.lookup, on, Folded]
  none _ _ := rfl

theorem Gathered.absorb {seen found next : List Dependency} {d : Dependency}
    (h : Gathered seen found) (hd : Resolver.absorb d found = .ok next) :
    Gathered (seen ++ [d]) next where
  nodup := by
    rw [absorb_products hd]
    split
    · exact h.nodup
    · next hn => exact h.nodup.append (List.nodup_singleton _) (List.disjoint_singleton.mpr hn)
  lookup id m := by
    rw [on_append]
    by_cases hid : id = d.product
    · subst hid
      rw [on_self]
      obtain ⟨n, hn, ⟨hnone, rfl⟩ | ⟨e, he, hm⟩⟩ := absorb_self hd
      · rw [hn, h.none _ hnone, List.nil_append, folded_single, Option.some.injEq, eq_comm]
      · have hf := (h.lookup _ e).mp he
        rw [hn, folded_snoc hf.ne_nil, Option.some.injEq]
        constructor
        · intro hnm
          exact ⟨e, hf, hnm ▸ hm⟩
        · intro hx
          obtain ⟨e', hf', hm'⟩ := hx
          rw [hf'.unique hf, hm] at hm'
          exact Except.ok.inj hm'
    · rw [absorb_other hd hid, on_other hid, List.append_nil]
      exact h.lookup id m
  none id hid := by
    by_cases he : id = d.product
    · subst he
      obtain ⟨n, hn, _⟩ := absorb_self hd
      exact absurd (hn.symm.trans hid) (by simp)
    · rw [absorb_other hd he] at hid
      rw [on_append, on_other he, h.none id hid, List.append_nil]

theorem Gathered.fold {seen found next ds : List Dependency} (h : Gathered seen found)
    (hf : ds.foldlM (fun es d => Resolver.absorb d es) found = .ok next) :
    Gathered (seen ++ ds) next := by
  induction ds generalizing seen found with
  | nil =>
    cases hf
    rwa [List.append_nil]
  | cons d ds ih =>
    obtain ⟨mid, hmid, hf⟩ := bind_ok.mp hf
    rw [List.append_cons]
    exact ih (h.absorb hmid) hf

/-- A dependency that is compatible with all that was seen on its product can be absorbed. -/
theorem Gathered.exists_absorb {seen found ds : List Dependency} {d : Dependency}
    (h : Gathered seen found) (hc : Compatible (on d.product (seen ++ d :: ds))) :
    ∃ next, Resolver.absorb d found = .ok next := by
  apply Resolver.exists_absorb
  intro e he
  have hf := ((h.lookup _ e).mp he).merged
  refine hf.exists_merge (.single d) (lookup_mem he).2 (hc.mono ?_)
  intro c hc
  simp only [List.mem_append, List.mem_singleton, mem_on] at hc ⊢
  rcases hc with hc | rfl
  · exact ⟨.inl hc.1, hc.2⟩
  · exact ⟨.inr (List.mem_cons_self), rfl⟩

/-- Nothing stops the gathering of dependencies that are compatible product by product. -/
theorem Gathered.exists_fold {seen found ds : List Dependency} (h : Gathered seen found)
    (hc : ∀ id, Compatible (on id (seen ++ ds))) :
    ∃ next, ds.foldlM (fun es d => Resolver.absorb d es) found = .ok next := by
  induction ds generalizing seen found with
  | nil => exact ⟨found, rfl⟩
  | cons d ds ih =>
    obtain ⟨mid, hmid⟩ := h.exists_absorb (hc d.product)
    rw [List.append_cons] at hc
    obtain ⟨next, hnext⟩ := ih (h.absorb hmid) hc
    exact ⟨next, bind_ok.mpr ⟨mid, hmid, hnext⟩⟩

theorem on_foreign {r : Resolver} {id : ProductId} (ds : List Dependency) (h : id ≠ r.product) :
    on id (ds.filter fun d => d.product ≠ r.product) = on id ds := by
  unfold on
  rw [List.filter_filter]
  apply List.filter_congr
  intro d _
  by_cases hd : d.product = id
  · simp [hd, h]
  · simp [hd]

theorem on_own {r : Resolver} (ds : List Dependency) :
    on r.product (ds.filter fun d => d.product ≠ r.product) = [] := by
  simp only [on, List.filter_filter, List.filter_eq_nil_iff]
  intro d _
  by_cases hd : d.product = r.product <;> simp [hd]

/-- Gathering fails only where two dependencies on a foreign product exclude each other. -/
theorem exists_gather {r : Resolver} {ds : List Dependency} :
    (∃ found, r.gather ds = .ok found) ↔ ∀ id, id ≠ r.product → Compatible (on id ds) := by
  constructor
  · intro h id hid
    obtain ⟨found, hfound⟩ := h
    have hg := Gathered.empty.fold hfound
    rw [List.nil_append] at hg
    rw [← on_foreign ds hid]
    cases hl : Resolver.lookup id found with
    | none =>
      rw [hg.none id hl]
      exact .inl fun hm => nomatch hm
    | some m => exact ((hg.lookup id m).mp hl).merged.compatible
  · intro h
    apply Gathered.empty.exists_fold
    intro id
    rw [List.nil_append]
    by_cases hid : id = r.product
    · rw [hid, on_own]
      exact .inl fun hm => nomatch hm
    · rw [on_foreign ds hid]
      exact h id hid

end ProductLock.Resolver
