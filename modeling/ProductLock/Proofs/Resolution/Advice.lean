import ProductLock.Proofs.Resolution.Entries

namespace ProductLock

/-- A declared recommendation that was found as well, and that the merge of both keeps. -/
structure Advisory.Repeated (own found merged : Dependency) : Prop where
  declared : own.recommended ≠ none
  found : own.recommended = found.recommended
  kept : merged.recommended = own.recommended

/-- Advice is given where the merge is what was found, and else where the recommendation is
repeated. -/
theorem Advisory.between_eq_some {own found merged : Dependency} {a : Advisory} :
    between own found merged = some a ↔ (a.declared = own ∧ a.discovered = found) ∧
      (a.kind = .redundantDeclaration ∧ merged = found ∨
        a.kind = .redundantRecommendation ∧ merged ≠ found ∧ Repeated own found merged) := by
  obtain ⟨kind, declared, discovered⟩ := a
  rw [between]
  by_cases hm : merged = found
  · cases kind <;> simp [hm, eq_comm]
  · rw [if_neg hm]
    by_cases hrec : Repeated own found merged
    · rw [if_pos ⟨hrec.declared, hrec.found, hrec.kept⟩]
      cases kind <;> simp [hm, hrec, eq_comm]
    · rw [if_neg fun h => hrec ⟨h.1, h.2.1, h.2.2⟩]
      cases kind <;> simp [hm, hrec]

theorem Advisory.between_eq_none {own found merged : Dependency} :
    between own found merged = none ↔ merged ≠ found ∧ ¬ Repeated own found merged := by
  rw [Option.eq_none_iff_forall_ne_some]
  constructor
  · intro hnone
    have hne : merged ≠ found := fun hm =>
      hnone ⟨.redundantDeclaration, own, found⟩ (between_eq_some.mpr ⟨⟨rfl, rfl⟩, .inl ⟨rfl, hm⟩⟩)
    refine ⟨hne, fun hrec => ?_⟩
    exact hnone ⟨.redundantRecommendation, own, found⟩
      (between_eq_some.mpr ⟨⟨rfl, rfl⟩, .inr ⟨rfl, hne, hrec⟩⟩)
  · rintro ⟨hne, hrec⟩ a ha
    rcases (between_eq_some.mp ha).2 with ⟨_, hm⟩ | ⟨_, _, hrepeated⟩
    · exact hne hm
    · exact hrec hrepeated

namespace Resolver

open Dependency

variable {r : Resolver} {declared discovered found gathered ds : List Dependency}
  {combined : List (Dependency × Option Advisory)} {own d m : Dependency} {a : Advisory}

/-- Advice comes from the merge of what was found with the declaration on its product. -/
theorem combine_advice (h : combine declared d = .ok (m, some a)) :
    lookup d.product declared = some a.declared ∧ a.discovered = d ∧ a.declared.merge d = .ok m ∧
      Advisory.between a.declared d m = some a := by
  unfold combine at h
  split at h
  · cases h
  · next own hown =>
    obtain ⟨merged, hmerge, h⟩ := bind_ok.mp h
    obtain ⟨rfl, hadvice⟩ := Prod.mk.inj (Except.ok.inj h)
    obtain ⟨⟨hdecl, hdisc⟩, _⟩ := Advisory.between_eq_some.mp hadvice
    rw [hdecl]
    exact ⟨hown, hdisc, hmerge, hadvice⟩

theorem combine_advisory (h : combine declared d = .ok (m, some a)) : a.product = d.product :=
  (lookup_mem (combine_advice h).1).2

/-- How many dependencies come before the first one on a product. -/
def firstAt (ds : List Dependency) (id : ProductId) : Nat :=
  (ds.map Dependency.product).idxOf id

theorem firstAt_cons (d : Dependency) (ds : List Dependency) (id : ProductId) :
    firstAt (d :: ds) id = if d.product = id then 0 else firstAt ds id + 1 := by
  rw [firstAt, List.map_cons, List.idxOf_cons]
  by_cases h : d.product = id
  · simp [h]
  · rw [if_neg h, beq_false_of_ne h]
    rfl

theorem firstAt_append_of_mem {id : ProductId} (h : id ∈ ds.map Dependency.product)
    (more : List Dependency) : firstAt (ds ++ more) id = firstAt ds id := by
  rw [firstAt, List.map_append]
  exact List.idxOf_append_of_mem h

theorem firstAt_snoc_self (h : d.product ∉ ds.map Dependency.product) :
    firstAt (ds ++ [d]) d.product = ds.length := by
  rw [firstAt, List.map_append, List.idxOf_append_of_notMem h, List.length_map]
  exact congrArg (ds.length + ·) List.idxOf_cons_self

/-- Leaving out a product does not change the order in which the others first occur. -/
theorem firstAt_foreign_lt {i j : ProductId} (hi : i ≠ r.product) (hj : j ≠ r.product)
    (h : firstAt (ds.filter fun d => d.product ≠ r.product) i <
      firstAt (ds.filter fun d => d.product ≠ r.product) j) : firstAt ds i < firstAt ds j := by
  induction ds with
  | nil => exact h
  | cons d ds ih =>
    by_cases hd : d.product = r.product
    · rw [List.filter_cons_of_neg (by simpa using hd)] at h
      rw [firstAt_cons, firstAt_cons, hd, if_neg (Ne.symm hi), if_neg (Ne.symm hj)]
      exact Nat.succ_lt_succ (ih h)
    · rw [List.filter_cons_of_pos (by simpa using hd), firstAt_cons, firstAt_cons] at h
      rw [firstAt_cons, firstAt_cons]
      by_cases hdj : d.product = j
      · rw [if_pos hdj] at h
        exact absurd h (Nat.not_lt_zero _)
      · rw [if_neg hdj] at h ⊢
        split at h
        · next hdi =>
          rw [if_pos hdi]
          exact Nat.succ_pos _
        · next hdi =>
          rw [if_neg hdi]
          exact Nat.succ_lt_succ (ih (Nat.lt_of_succ_lt_succ h))

/-- The products of some dependencies, in the order in which they first occur. -/
structure FirstSeen (seen : List Dependency) (ids : List ProductId) : Prop where
  mem : ∀ id, id ∈ ids ↔ id ∈ seen.map Dependency.product
  ordered : ids.Pairwise fun i j => firstAt seen i < firstAt seen j

variable {seen : List Dependency} {ids : List ProductId}

theorem FirstSeen.empty : FirstSeen [] [] where
  mem _ := Iff.rfl
  ordered := .nil

/-- What comes later does not change the order. -/
theorem FirstSeen.still_ordered (h : FirstSeen seen ids) (more : List Dependency) :
    ids.Pairwise fun i j => firstAt (seen ++ more) i < firstAt (seen ++ more) j := by
  refine h.ordered.imp_of_mem fun hi hj hlt => ?_
  rwa [firstAt_append_of_mem ((h.mem _).mp hi), firstAt_append_of_mem ((h.mem _).mp hj)]

theorem FirstSeen.again (h : FirstSeen seen ids) (hd : d.product ∈ ids) :
    FirstSeen (seen ++ [d]) ids where
  mem id := by
    rw [List.map_append, List.mem_append, ← h.mem]
    refine ⟨.inl, fun hid => hid.elim (fun hid => hid) fun hid => ?_⟩
    rwa [List.mem_singleton.mp hid]
  ordered := h.still_ordered [d]

theorem FirstSeen.new (h : FirstSeen seen ids) (hd : d.product ∉ ids) :
    FirstSeen (seen ++ [d]) (ids ++ [d.product]) where
  mem id := by
    rw [List.map_append, List.mem_append, List.mem_append, ← h.mem]
    rfl
  ordered := by
    refine List.pairwise_append.mpr ⟨h.still_ordered [d], List.pairwise_singleton _ _, ?_⟩
    intro i hi j hj
    have hseen := (h.mem i).mp hi
    have hlt := List.idxOf_lt_length_of_mem hseen
    rw [List.length_map] at hlt
    rw [List.mem_singleton.mp hj, firstAt_append_of_mem hseen,
      firstAt_snoc_self (mt (h.mem _).mpr hd)]
    exact hlt

theorem FirstSeen.absorb (h : FirstSeen seen (found.map Dependency.product))
    {next : List Dependency} (hd : Resolver.absorb d found = .ok next) :
    FirstSeen (seen ++ [d]) (next.map Dependency.product) := by
  rw [absorb_products hd]
  split
  · next hmem => exact h.again hmem
  · next hnew => exact h.new hnew

theorem FirstSeen.fold (h : FirstSeen seen (found.map Dependency.product))
    {next : List Dependency} (hf : ds.foldlM (fun es d => Resolver.absorb d es) found = .ok next) :
    FirstSeen (seen ++ ds) (next.map Dependency.product) := by
  induction ds generalizing seen found with
  | nil =>
    cases hf
    rwa [List.append_nil]
  | cons d ds ih =>
    obtain ⟨mid, hmid, hf⟩ := bind_ok.mp hf
    rw [List.append_cons]
    exact ih (h.absorb hmid) hf

/-- What is gathered stands in the order in which its products first occur. -/
theorem gather_ordered (h : r.gather discovered = .ok gathered) :
    (gathered.map Dependency.product).Pairwise fun i j =>
      firstAt discovered i < firstAt discovered j := by
  have hseen := FirstSeen.empty.fold h
  rw [List.nil_append] at hseen
  have hforeign : ∀ id ∈ gathered.map Dependency.product, id ≠ r.product := by
    intro id hid
    obtain ⟨d, hd, rfl⟩ := List.mem_map.mp ((hseen.mem id).mp hid)
    simpa using (List.mem_filter.mp hd).2
  exact hseen.ordered.imp_of_mem fun hi hj => firstAt_foreign_lt (hforeign _ hi) (hforeign _ hj)

/-- Advice is given along what was found, at most once for each. -/
theorem advice_sublist (hc : found.mapM (combine declared) = .ok combined) :
    ((combined.filterMap Prod.snd).map Advisory.product).Sublist
      (found.map Dependency.product) := by
  induction found generalizing combined with
  | nil =>
    cases hc
    exact .slnil
  | cons f found ih =>
    obtain ⟨⟨m, advice⟩, hf, rest, hrest, rfl⟩ := mapM_cons_ok.mp hc
    cases advice with
    | none => exact (ih hrest).cons _
    | some a =>
      have ha : a.product = f.product := combine_advisory hf
      rw [List.map_cons, ← ha]
      exact (ih hrest).cons_cons _

/-- What was found on a declared product is merged into its declaration. -/
theorem combine_own {p : Dependency × Option Advisory}
    (hown : lookup d.product declared = some own) : combine declared d = .ok p ↔
      ∃ m, own.merge d = .ok m ∧ (m, Advisory.between own d m) = p := by
  simp only [combine, hown, bind_ok, pure_ok, Except.ok.injEq]

/-- Advice is about a declaration and about what its product's discovered dependencies come to. -/
theorem advice_source {res : Resolution} (h : r.resolve declared discovered = .ok res)
    (ha : a ∈ res.advisories) :
    a.declared ∈ declared ∧ Folded (on a.declared.product discovered) a.discovered ∧
      ∃ m, a.declared.merge a.discovered = .ok m ∧
        Advisory.between a.declared a.discovered m = some a := by
  obtain ⟨_, gathered, hg, combined, hc, rfl⟩ := resolve_ok.mp h
  obtain ⟨⟨m, advice⟩, hmem, rfl : advice = some a⟩ := List.mem_filterMap.mp ha
  obtain ⟨f, hf, hcombine⟩ := (mem_mapM hc).mp hmem
  obtain ⟨hown, rfl, hmerge, hadvice⟩ := combine_advice hcombine
  obtain ⟨hdeclared, hp⟩ := lookup_mem hown
  exact ⟨hdeclared, hp ▸ (((gather_found hg).mem _).mp hf).2.2, m, hmerge, hadvice⟩

/-- The advice on a declared product is what its declaration and what was found on it give. -/
theorem advice_on {res : Resolution} (h : r.resolve declared discovered = .ok res)
    (hown : own ∈ declared) (hdisc : own.product ∈ discovered.map Dependency.product) :
    ∃ found merged, Folded (on own.product discovered) found ∧ own.merge found = .ok merged ∧
      ∀ a, a ∈ res.advisories ∧ a.product = own.product ↔
        Advisory.between own found merged = some a := by
  obtain ⟨hchecked, gathered, hg, combined, hc, rfl⟩ := resolve_ok.mp h
  have hs := checkAllDeclared_sensible.mp hchecked
  have hfound := gather_found hg
  have hadmitted := hs.admitted own hown
  have hne : on own.product discovered ≠ [] := by
    obtain ⟨d, hd, hp⟩ := List.mem_map.mp hdisc
    exact List.ne_nil_of_mem (mem_on.mpr ⟨hd, hp⟩)
  obtain ⟨f, hf, hp⟩ := hfound.complete own.product hadmitted.foreign hadmitted.heeded hne
  have hfold := ((hfound.mem f).mp hf).2.2
  have hlookup : lookup f.product declared = some own := hp ▸ lookup_of_mem hs.nodup hown
  obtain ⟨p, hp'⟩ := exists_mapM.mp ⟨combined, hc⟩ f hf
  obtain ⟨merged, hmerge, rfl⟩ := (combine_own hlookup).mp hp'
  refine ⟨f, merged, hp ▸ hfold, hmerge, fun a => ?_⟩
  constructor
  · rintro ⟨ha, hproduct⟩
    obtain ⟨⟨m, advice⟩, hmem, rfl : advice = some a⟩ := List.mem_filterMap.mp ha
    obtain ⟨f', hf', hcombine⟩ := (mem_mapM hc).mp hmem
    -- On each product one dependency was found.
    have hsame : f'.product = f.product := by rw [← combine_advisory hcombine, hproduct, hp]
    obtain rfl := List.inj_on_of_nodup_map hfound.nodup hf' hf hsame
    obtain ⟨_, hadvice⟩ := Prod.mk.inj (Except.ok.inj (hp'.symm.trans hcombine))
    exact hadvice
  · intro hadvice
    have hmem := (mem_mapM hc).mpr ⟨f, hf, hp'⟩
    refine ⟨List.mem_filterMap.mpr ⟨_, hmem, hadvice⟩, ?_⟩
    obtain ⟨⟨rfl, _⟩, _⟩ := Advisory.between_eq_some.mp hadvice
    rfl

/-- There is advice of a kind on a product. -/
def Given (advisories : List Advisory) (kind : Advisory.Kind) (id : ProductId) : Prop :=
  ∃ a ∈ advisories, a.product = id ∧ a.kind = kind

/-- Where the advice on a product is what a declaration and what was found give, so is its kind. -/
theorem given_iff {advisories : List Advisory} {id : ProductId} {kind : Advisory.Kind}
    (h : ∀ a, a ∈ advisories ∧ a.product = id ↔ Advisory.between own d m = some a) :
    Given advisories kind id ↔ kind = .redundantDeclaration ∧ m = d ∨
      kind = .redundantRecommendation ∧ m ≠ d ∧ Advisory.Repeated own d m := by
  constructor
  · rintro ⟨a, ha, hp, rfl⟩
    exact (Advisory.between_eq_some.mp ((h a).mp ⟨ha, hp⟩)).2
  · intro hkind
    obtain ⟨ha, hp⟩ := (h ⟨kind, own, d⟩).mpr (Advisory.between_eq_some.mpr ⟨⟨rfl, rfl⟩, hkind⟩)
    exact ⟨_, ha, hp, rfl⟩

/-- Advice that is complete and to the point: on products that are both declared and discovered, at
most once on each and in the order of their discovery, about the declaration and all that was
discovered, and of the kind that merging these two calls for. -/
structure Advises (declared discovered : List Dependency) (advisories : List Advisory) : Prop where
  nodup : (advisories.map Advisory.product).Nodup
  ordered : (advisories.map Advisory.product).Pairwise fun i j =>
    firstAt discovered i < firstAt discovered j
  on_declared : ∀ a ∈ advisories, a.declared ∈ declared
  on_discovered : ∀ a ∈ advisories, a.product ∈ discovered.map Dependency.product ∧
    Folded (on a.product discovered) a.discovered
  to_the_point : ∀ own ∈ declared, own.product ∈ discovered.map Dependency.product →
    ∃ found merged, Folded (on own.product discovered) found ∧ own.merge found = .ok merged ∧
      (Given advisories .redundantDeclaration own.product ↔ merged = found) ∧
      (Given advisories .redundantRecommendation own.product ↔
        merged ≠ found ∧ Advisory.Repeated own found merged) ∧
      ((∀ a ∈ advisories, a.product ≠ own.product) ↔
        merged ≠ found ∧ ¬ Advisory.Repeated own found merged)

/-- Of two declared products with advice the one that was discovered first comes first. -/
theorem advice_ordered {res : Resolution} (h : r.resolve declared discovered = .ok res) :
    (res.advisories.map Advisory.product).Pairwise fun i j =>
      firstAt discovered i < firstAt discovered j := by
  obtain ⟨_, gathered, hg, combined, hc, rfl⟩ := resolve_ok.mp h
  have hsub := List.filter_sublist (p := fun d => d.product ∉ r.ignored) (l := gathered)
  exact (gather_ordered hg).sublist ((advice_sublist hc).trans (hsub.map Dependency.product))

/-- The advisories of a resolution tell exactly which declarations, or which of their
recommendations, the discovered dependencies make redundant. -/
theorem resolve_advises {res : Resolution} (h : r.resolve declared discovered = .ok res) :
    Advises declared discovered res.advisories := by
  refine ⟨(advice_ordered h).imp fun hlt he => ?_, advice_ordered h, ?_, ?_, ?_⟩
  · rw [he] at hlt
    exact lt_irrefl _ hlt
  · intro a ha
    exact (advice_source h ha).1
  · intro a ha
    obtain ⟨_, hfold, _⟩ := advice_source h ha
    obtain ⟨d, hd⟩ := List.exists_mem_of_ne_nil _ hfold.ne_nil
    obtain ⟨hd, hp⟩ := mem_on.mp hd
    exact ⟨List.mem_map.mpr ⟨d, hd, hp⟩, hfold⟩
  · intro own hown hdisc
    obtain ⟨found, merged, hfold, hmerge, hadvice⟩ := advice_on h hown hdisc
    refine ⟨found, merged, hfold, hmerge, ?_, ?_, ?_⟩
    · simp [given_iff hadvice]
    · simp [given_iff hadvice]
    · rw [← Advisory.between_eq_none, Option.eq_none_iff_forall_ne_some]
      simp only [ne_eq, ← hadvice, not_and]

/-- Declarations on three products: one that is repeated in full, one of which the recommendation is
repeated, and one that nothing repeats. -/
def declarations : List Dependency :=
  [.ofFields ⟨"com.example", "api", "1.0.0", "1.x.x", none, false⟩ rfl,
    .ofFields ⟨"com.example", "lib", "2.3.0", "3.0.0", some "2.4.0", false⟩ rfl,
    .ofFields ⟨"com.example", "db", "1.0.0", "1.2.0", none, false⟩ rfl]

/-- Recommendations on these products and on two others, in no particular order. -/
def announcements : List Dependency :=
  [.ofFields ⟨"com.example", "legacy", "1.0.0", "2.x.x", none, false⟩ rfl,
    .ofFields ⟨"com.example", "lib", "2.0.0", "3.0.0", some "2.4.0", false⟩ rfl,
    .ofFields ⟨"com.example", "api", "1.3.0", "1.x.x", none, false⟩ rfl,
    .ofFields ⟨"com.example", "app", "1.0.0", "1.x.x", none, false⟩ rfl,
    .ofFields ⟨"com.example", "db", "1.0.0", "1.x.x", none, false⟩ rfl,
    .ofFields ⟨"com.example", "lib", "1.0.0", "3.x.x", none, false⟩ rfl,
    .ofFields ⟨"com.example", "api", "1.2.0", "2.x.x", none, false⟩ rfl]

def legacy : ProductId :=
  { app with name := "legacy", name_ok := by decide +kernel }

theorem resolve_advises_interleaved :
    ∃ res, Resolver.resolve { product := app, ignored := [legacy] } declarations announcements =
        .ok res ∧
      res.advisories.map (fun a => (a.product.name, a.kind)) =
        [("lib", .redundantRecommendation), ("api", .redundantDeclaration)] ∧
      Advises declarations announcements res.advisories := by
  have h : ∃ res, Resolver.resolve { product := app, ignored := [legacy] } declarations
      announcements = .ok res ∧ res.advisories.map (fun a => (a.product.name, a.kind)) =
        [("lib", .redundantRecommendation), ("api", .redundantDeclaration)] := by
    decide +kernel
  obtain ⟨res, hres, hadvice⟩ := h
  exact ⟨res, hres, hadvice, resolve_advises hres⟩

end Resolver

end ProductLock
