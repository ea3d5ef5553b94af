import ProductLock.Proofs.Resolution.Redundant

namespace ProductLock

open Version

namespace Dependency

variable {own found merged : Dependency}

theorem isValid_of_none (v : String) (h : none = some v) : isValid v = true :=
  absurd h.symm (Option.some_ne_none v)

def withoutRecommendation (d : Dependency) : Dependency :=
  { d with recommended := none, recommended_ok := isValid_of_none }

theorem withoutRecommendation_eq_self (h : own.recommended = none) :
    own.withoutRecommendation = own := by
  cases own
  cases h
  rfl

theorem terms_withoutRecommendation {t : Terms} (h : own.terms = some t) :
    own.withoutRecommendation.terms = some { t with preferred := ⊥ } := by
  obtain ⟨hl, hh, _⟩ := terms_eq_some.mp h
  exact terms_eq_some.mpr ⟨hl, hh, rfl⟩

/-- What both prefer has to be asked for by one of them only. -/
theorem meet_of_preferred_eq {s t : Terms} (h : s.preferred = t.preferred) :
    Terms.meet { s with preferred := ⊥ } t = s.meet t := by
  have hbot (l h : Bound) : Terms.clip l h ⊥ = ⊥ := ite_self ⊥
  simp only [Terms.meet, hbot, h, max_self, bot_le, max_eq_right]

/-- Of two different dependencies with one recommendation, one may as well do without it. -/
theorem merge_withoutRecommendation (hne : own ≠ found)
    (hrec : own.recommended = found.recommended) (hm : own.merge found = .ok merged) :
    own.withoutRecommendation.merge found = .ok merged := by
  by_cases hnone : own.recommended = none
  · rwa [withoutRecommendation_eq_self hnone]
  obtain ⟨s, t, hs, ht, hle, hmt, hp, hmp, hmo⟩ := (merge_ok_iff hne).mp hm
  have hpreferred : s.preferred = t.preferred := by
    have hsp := (terms_eq_some.mp hs).2.2
    rw [hrec, (terms_eq_some.mp ht).2.2] at hsp
    exact (Option.some.inj hsp).symm
  have hs' := terms_withoutRecommendation hs
  have hmeet := meet_of_preferred_eq hpreferred
  have hne' : own.withoutRecommendation ≠ found := by
    rintro rfl
    exact hnone hrec
  refine (merge_ok_iff hne').mpr ⟨_, t, hs', ht, hle, ?_, hp, hmp, hmo⟩
  rwa [hmeet]

end Dependency

namespace Resolver

open Dependency

variable {r : Resolver} {ids : List ProductId} {declared discovered found : List Dependency}
  {d f own m : Dependency} {a : Advisory} {combined : List (Dependency × Option Advisory)}

/-- The declaration without its recommendation if it is on one of the products. -/
def relieve (ids : List ProductId) (d : Dependency) : Dependency :=
  if d.product ∈ ids then d.withoutRecommendation else d

@[simp]
theorem relieve_product (ids : List ProductId) (d : Dependency) :
    (relieve ids d).product = d.product := by
  unfold relieve
  split <;> rfl

@[simp]
theorem relieve_optional (ids : List ProductId) (d : Dependency) :
    (relieve ids d).optional = d.optional := by
  unfold relieve
  split <;> rfl

theorem relieve_of_notMem (h : d.product ∉ ids) : relieve ids d = d :=
  if_neg h

theorem lookup_relieve (ids : List ProductId) (id : ProductId) (ds : List Dependency) :
    lookup id (ds.map (relieve ids)) = (lookup id ds).map (relieve ids) := by
  simp only [lookup, List.find?_map, Function.comp_def, relieve_product]

theorem isMarkedOptional_relieve (r : Resolver) (ids : List ProductId) (ds : List Dependency)
    (id : ProductId) :
    r.isMarkedOptional (ds.map (relieve ids)) id = r.isMarkedOptional ds id := by
  simp [isMarkedOptional, List.any_map, Function.comp_def]

theorem mark_relieve (r : Resolver) (ids : List ProductId) (ds : List Dependency) :
    r.mark (ds.map (relieve ids)) = r.mark ds := by
  funext d
  simp only [mark, isMarkedOptional_relieve]

theorem Admitted.relieve (h : r.Admitted d) (ids : List ProductId) :
    r.Admitted (relieve ids d) where
  foreign := by
    rw [relieve_product]
    exact h.foreign
  heeded := by
    rw [relieve_product]
    exact h.heeded
  settled := by
    rw [relieve_product, relieve_optional]
    exact h.settled
  mergeable := by
    unfold Resolver.relieve
    split
    · exact checkMergeable_ok.mpr ⟨(checkMergeable_ok.mp h.mergeable).1, nofun⟩
    · exact h.mergeable

theorem Sensible.relieve (h : r.Sensible declared) (ids : List ProductId) :
    r.Sensible (declared.map (Resolver.relieve ids)) where
  admitted := by
    intro d hd
    obtain ⟨e, he, rfl⟩ := List.mem_map.mp hd
    exact (h.admitted e he).relieve ids
  nodup := by
    rw [List.map_map]
    simpa [Function.comp_def] using h.nodup

theorem between_recommendation (h : Advisory.between own f m = some a)
    (hk : a.kind = .redundantRecommendation) :
    m ≠ f ∧ own.recommended = f.recommended := by
  rcases (Advisory.between_eq_some.mp h).2 with ⟨hother, _⟩ | ⟨_, hne, hrepeated⟩
  · rw [hk] at hother
    contradiction
  · exact ⟨hne, hrepeated.found⟩

theorem between_of_no_recommendation (hne : m ≠ f) (hnone : own.recommended = none) :
    Advisory.between own f m = none :=
  Advisory.between_eq_none.mpr ⟨hne, fun hrepeated => hrepeated.declared hnone⟩

/-- No advisory is left for a product whose declaration has lost its recommendation. -/
def silence (ids : List ProductId) (p : Dependency × Option Advisory) : Dependency × Option Advisory :=
  (p.1, p.2.filter fun a => a.product ∉ ids)

theorem combine_relieve_other {p : Dependency × Option Advisory} (h : combine declared f = .ok p)
    (hf : f.product ∉ ids) : combine (declared.map (relieve ids)) f = .ok (silence ids p) := by
  have hsame : silence ids p = p := by
    obtain ⟨m, advice⟩ := p
    cases advice with
    | none => rfl
    | some a =>
      have ha : a.product ∉ ids := combine_advisory h ▸ hf
      simp [silence, ha]
  rw [hsame, ← h]
  unfold combine
  rw [lookup_relieve]
  cases hown : lookup f.product declared with
  | none => rfl
  | some own =>
    have hsame : relieve ids own = own := relieve_of_notMem ((lookup_mem hown).2 ▸ hf)
    simp only [Option.map_some, hsame]

theorem combine_relieve_self (h : combine declared f = .ok (m, some a))
    (hk : a.kind = .redundantRecommendation) (hf : f.product ∈ ids) :
    combine (declared.map (relieve ids)) f = .ok (silence ids (m, some a)) := by
  have ha : a.product ∈ ids := combine_advisory h ▸ hf
  obtain ⟨hown, _, hmerge, hadvice⟩ := combine_advice h
  obtain ⟨hne, hrec⟩ := between_recommendation hadvice hk
  have hdiffer : a.declared ≠ f := by
    intro hsame
    rw [hsame, merge_self] at hmerge
    exact hne (Except.ok.inj hmerge).symm
  have hrelieved : relieve ids a.declared = a.declared.withoutRecommendation := if_pos ha
  have hsilent : Advisory.between a.declared.withoutRecommendation f m = none :=
    between_of_no_recommendation hne rfl
  unfold combine
  rw [lookup_relieve, hown, Option.map_some, hrelieved]
  refine bind_ok.mpr ⟨m, merge_withoutRecommendation hdiffer hrec hmerge, ?_⟩
  simp [hsilent, silence, Option.filter, ha, pure_ok]

/-- The advisories say that the recommendations declared on these products can be removed. -/
def Advised (ids : List ProductId) (advisories : List Advisory) : Prop :=
  ∀ id ∈ ids, ∃ a ∈ advisories, a.product = id ∧ a.kind = .redundantRecommendation

/-- Advice on a product is given where what was found on it is combined with its declaration. -/
theorem Advised.exists_combine (h : Advised ids (combined.filterMap Prod.snd))
    (hc : found.mapM (combine declared) = .ok combined) {id : ProductId} (hid : id ∈ ids) :
    ∃ f ∈ found, f.product = id ∧ ∃ m a, combine declared f = .ok (m, some a) ∧
      a.kind = .redundantRecommendation := by
  obtain ⟨a, ha, rfl, hk⟩ := h id hid
  obtain ⟨⟨m, advice⟩, hmem, rfl : advice = some a⟩ := List.mem_filterMap.mp ha
  obtain ⟨f, hf, hcombine⟩ := (mem_mapM hc).mp hmem
  exact ⟨f, hf, (combine_advisory hcombine).symm, m, a, hcombine, hk⟩

theorem combined_relieve (hn : (found.map Dependency.product).Nodup)
    (hc : found.mapM (combine declared) = .ok combined)
    (hids : Advised ids (combined.filterMap Prod.snd)) :
    found.mapM (combine (declared.map (relieve ids))) = .ok (combined.map (silence ids)) := by
  apply mapM_of_steps hc
  intro f hf p _ hp
  by_cases hin : f.product ∈ ids
  -- One dependency is found on a product, so the advice comes from this step.
  · obtain ⟨f', hf', hproduct, m, a, hcombine, hk⟩ := hids.exists_combine hc hin
    obtain rfl := List.inj_on_of_nodup_map hn hf' hf hproduct
    obtain rfl := Except.ok.inj (hcombine.symm.trans hp)
    exact combine_relieve_self hcombine hk hin
  · exact combine_relieve_other hp hin

theorem undisturbed_relieve (hids : ∀ id ∈ ids, lookup id found ≠ none) :
    ((declared.map (relieve ids)).filter fun d => (lookup d.product found).isNone) =
      declared.filter fun d => (lookup d.product found).isNone := by
  have hkept : ∀ d ∈ declared.filter fun d => (lookup d.product found).isNone,
      relieve ids d = d := by
    intro d hd
    have hnone := Option.isNone_iff_eq_none.mp (List.mem_filter.mp hd).2
    exact relieve_of_notMem fun hin => hids d.product hin hnone
  rw [List.filter_map]
  simp only [Function.comp_def, relieve_product]
  rw [List.map_congr_left hkept, List.map_id']

/-- Advice to remove recommendations is safe to follow, be it for all of the products or for some:
the report stays the same, and of the advisories those on the other products stay. -/
theorem resolve_relieve {res : Resolution} (h : r.resolve declared discovered = .ok res)
    (hids : Advised ids res.advisories) :
    r.resolve (declared.map (relieve ids)) discovered =
      .ok ⟨res.report, res.advisories.filter fun a => a.product ∉ ids⟩ := by
  obtain ⟨hchecked, gathered, hg, combined, hc, rfl⟩ := resolve_ok.mp h
  have hs := (checkAllDeclared_sensible.mp hchecked).relieve ids
  have hcombined := combined_relieve (gather_found hg).nodup hc hids
  have hfound : ∀ id ∈ ids,
      lookup id (gathered.filter fun d => d.product ∉ r.ignored) ≠ none := by
    intro id hid hnone
    obtain ⟨f, hf, hproduct, _⟩ := hids.exists_combine hc hid
    exact lookup_eq_none.mp hnone f hf hproduct
  refine resolve_ok.mpr ⟨checkAllDeclared_sensible.mpr hs, gathered, hg, _, hcombined, ?_⟩
  rw [undisturbed_relieve hfound, mark_relieve]
  simp [silence, List.filterMap_map, List.filter_filterMap, Function.comp_def]

/-- Two recommendations of an artifact, and the same once more with minimums of their own. -/
def advocated : List Dependency :=
  [.ofFields ⟨"com.example", "api", "1.0.0", "1.x.x", some "1.3.0", false⟩ rfl,
    .ofFields ⟨"com.example", "lib", "2.0.0", "3.0.0", some "2.1.0", false⟩ rfl]

def tightened : List Dependency :=
  [.ofFields ⟨"com.example", "api", "1.2.0", "1.x.x", some "1.3.0", false⟩ rfl,
    .ofFields ⟨"com.example", "lib", "2.0.1", "3.0.0", some "2.1.0", true⟩ rfl]

def api : ProductId :=
  { app with name := "api", name_ok := by decide +kernel }

/-- The advice for one product is followed, and that for the other one stays. -/
theorem resolve_relieve_tightened :
    ∃ res, Resolver.resolve { product := app } tightened advocated = .ok res ∧
      res.advisories.length = 2 ∧
      Resolver.resolve { product := app } (tightened.map (relieve [api])) advocated =
        .ok ⟨res.report, res.advisories.filter fun a => a.product ∉ [api]⟩ ∧
      (res.advisories.filter fun a => a.product ∉ [api]).length = 1 := by
  have h : ∃ res, Resolver.resolve { product := app } tightened advocated = .ok res ∧
      res.advisories.length = 2 ∧
      (∃ a ∈ res.advisories, a.product = api ∧ a.kind = .redundantRecommendation) ∧
      (res.advisories.filter fun a => a.product ∉ [api]).length = 1 := by
    decide +kernel
  obtain ⟨res, hres, hboth, hadvised, hother⟩ := h
  have hids : Advised [api] res.advisories := by
    intro id hid
    rw [List.mem_singleton.mp hid]
    exact hadvised
  exact ⟨res, hres, hboth, resolve_relieve hres hids, hother⟩

end Resolver

end ProductLock
