import ProductLock.Proofs.Resolution.Advice
import ProductLock.Proofs.Resolution.Contents

namespace ProductLock.Resolver

open Dependency

/-- What makes a declaration redundant: merging it with what was found on its product gives back what
was found. -/
structure Redundant (declared discovered : List Dependency) (own found : Dependency) : Prop where
  declared : own ∈ declared
  folded : Folded (on own.product discovered) found
  merge : own.merge found = .ok found

theorem Redundant.same_product {declared discovered : List Dependency} {own found : Dependency}
    (h : Redundant declared discovered own found) : found.product = own.product :=
  h.folded.merged.product_eq fun _ hc => (mem_on.mp hc).2

theorem resolve_redundant {r : Resolver} {declared discovered : List Dependency} {res : Resolution}
    {a : Advisory} (h : r.resolve declared discovered = .ok res) (ha : a ∈ res.advisories)
    (hk : a.kind = .redundantDeclaration) :
    Redundant declared discovered a.declared a.discovered := by
  obtain ⟨hdeclared, hfold, m, hmerge, hadvice⟩ := advice_source h ha
  rcases (Advisory.between_eq_some.mp hadvice).2 with ⟨_, rfl⟩ | ⟨hother, _⟩
  · exact ⟨hdeclared, hfold, hmerge⟩
  · rw [hk] at hother
    contradiction

/-- The rest of sensible declarations is sensible. -/
theorem Sensible.erase {r : Resolver} {declared : List Dependency} (h : r.Sensible declared)
    (own : Dependency) : r.Sensible (declared.erase own) where
  admitted d hd := h.admitted d (List.mem_of_mem_erase hd)
  nodup := h.nodup.sublist (List.erase_sublist.map _)

theorem mem_erase_iff {r : Resolver} {declared : List Dependency} (h : r.Sensible declared)
    {own d : Dependency} (hown : own ∈ declared) :
    d ∈ declared.erase own ↔ d ∈ declared ∧ d.product ≠ own.product := by
  rw [(List.Nodup.of_map _ h.nodup).mem_erase_iff]
  constructor
  · intro hd
    exact ⟨hd.2, fun hp => hd.1 (List.inj_on_of_nodup_map h.nodup hd.2 hown hp)⟩
  · intro hd
    exact ⟨fun he => hd.2 (he ▸ rfl), hd.1⟩

theorem on_erase_eq_nil {r : Resolver} {declared : List Dependency} (h : r.Sensible declared)
    {own : Dependency} {id : ProductId} (hown : own ∈ declared) :
    on id (declared.erase own) = [] ↔ id = own.product ∨ on id declared = [] := by
  simp only [on_eq_nil, lookup_eq_none, mem_erase_iff h hown]
  constructor
  · intro hnone
    by_cases hid : id = own.product
    · exact .inl hid
    · exact .inr fun d hd hp => hnone d ⟨hd, hp ▸ hid⟩ hp
  · intro hid d hd hp
    rcases hid with rfl | hnone
    · exact hd.2 hp
    · exact hnone d hd.1 hp

/-- Up to the marks for what is optional, a redundant declaration contributes nothing. -/
theorem Redundant.entry_iff {r : Resolver} {declared discovered : List Dependency}
    {own found m : Dependency} (h : Redundant declared discovered own found)
    (hs : r.Sensible declared) :
    r.Entry (declared.erase own) discovered m ↔ r.Entry declared discovered m := by
  have hp := h.same_product
  constructor
  · intro hm
    cases hm with
    | declared hd hnone => exact .declared (List.mem_of_mem_erase hd) hnone
    | discovered hnone hforeign hheeded hf =>
      rcases (on_erase_eq_nil hs h.declared).mp hnone with hid | hnone
      · rw [hid] at hf
        rw [hf.unique h.folded]
        exact .both h.declared h.folded h.merge
      · exact .discovered hnone hforeign hheeded hf
    | both hd hf hm => exact .both (List.mem_of_mem_erase hd) hf hm
  · intro hm
    cases hm with
    | declared hd hnone =>
      refine .declared ((mem_erase_iff hs h.declared).mpr ⟨hd, ?_⟩) hnone
      intro hid
      exact h.folded.ne_nil (hid ▸ hnone)
    | discovered hnone hforeign hheeded hf =>
      exact .discovered ((on_erase_eq_nil hs h.declared).mpr (.inr hnone)) hforeign hheeded hf
    | both hd hf hm =>
      next d f =>
      by_cases hid : d.product = own.product
      · have hdown := List.inj_on_of_nodup_map hs.nodup hd h.declared hid
        subst hdown
        rw [hf.unique h.folded, h.merge] at hm
        cases hm
        have ha := hs.admitted d hd
        exact .discovered ((on_erase_eq_nil hs hd).mpr (.inl hp)) (hp ▸ ha.foreign)
          (hp ▸ ha.heeded) (hp ▸ h.folded)
      · exact .both ((mem_erase_iff hs h.declared).mpr ⟨hd, hid⟩) hf hm

/-- On the product of a redundant declaration there is one entry. -/
theorem Redundant.unique {r : Resolver} {declared discovered : List Dependency}
    {own found m : Dependency} (h : Redundant declared discovered own found)
    (hs : r.Sensible declared) (hm : r.Entry declared discovered m)
    (hp : m.product = own.product) : m = found := by
  cases (h.entry_iff hs).mpr hm with
  | declared hd _ => exact absurd hp ((mem_erase_iff hs h.declared).mp hd).2
  | discovered _ _ _ hf => exact Folded.unique (hp ▸ hf) h.folded
  | both hd _ hok =>
    rw [merge_product hok] at hp
    exact absurd hp ((mem_erase_iff hs h.declared).mp hd).2

/-- No declaration is needed for resolution to succeed. -/
theorem exists_resolve_erase {r : Resolver} {declared discovered : List Dependency}
    {res : Resolution} (h : r.resolve declared discovered = .ok res) (own : Dependency) :
    ∃ res', r.resolve (declared.erase own) discovered = .ok res' := by
  obtain ⟨hs, hc⟩ := exists_resolve.mp ⟨res, h⟩
  refine exists_resolve.mpr ⟨hs.erase own, fun id hid => (hc id hid).mono ?_⟩
  intro c hc
  obtain ⟨hc, hp⟩ := mem_on.mp hc
  refine mem_on.mpr ⟨?_, hp⟩
  rcases List.mem_append.mp hc with hc | hc
  · exact List.mem_append_left _ (List.mem_of_mem_erase hc)
  · exact List.mem_append_right _ hc

theorem isMarkedOptional_erase {r : Resolver} {declared : List Dependency}
    (h : r.Sensible declared) {own : Dependency} (hown : own ∈ declared) {id : ProductId} :
    r.isMarkedOptional (declared.erase own) id = true ↔ id ∈ r.optional ∨
      id ≠ own.product ∧ r.isMarkedOptional declared id = true := by
  simp only [isMarkedOptional_iff, mem_erase_iff h hown]
  constructor
  · intro hx
    rcases hx with hopt | ⟨d, ⟨hd, hne⟩, rfl, ho⟩
    · exact .inl hopt
    · exact .inr ⟨hne, .inr ⟨d, hd, rfl, ho⟩⟩
  · intro hx
    rcases hx with hopt | ⟨hne, hopt | ⟨d, hd, rfl, ho⟩⟩
    · exact .inl hopt
    · exact .inl hopt
    · exact .inr ⟨d, ⟨hd, hne⟩, rfl, ho⟩

theorem isMarkedOptional_self {r : Resolver} {declared : List Dependency}
    (h : r.Sensible declared) {own : Dependency} (hown : own ∈ declared) :
    r.isMarkedOptional declared own.product = true ↔
      own.product ∈ r.optional ∨ own.optional = true := by
  have hon : ∀ d, d ∈ declared ∧ d.product = own.product ↔ d = own := by
    intro d
    rw [← mem_on, on_declared h hown, List.mem_singleton]
  rw [isMarkedOptional_iff]
  apply or_congr_right
  constructor
  · intro hx
    obtain ⟨d, hd, hp, ho⟩ := hx
    exact (hon d).mp ⟨hd, hp⟩ ▸ ho
  · intro ho
    exact ⟨own, hown, rfl, ho⟩

theorem mark_eq (r : Resolver) (declared : List Dependency) (d : Dependency) :
    r.mark declared d =
      { d with optional := r.isMarkedOptional declared d.product || d.optional } := by
  unfold mark
  split
  · next h => simp [h, asOptional]
  · next h => simp [h]

theorem asOptional_mark (r : Resolver) (declared : List Dependency) (d : Dependency) :
    (r.mark declared d).asOptional = d.asOptional := by
  rw [mark_eq]
  rfl

/-- The mark that is lost with the declaration, if any. -/
theorem mark_erase_eq_iff {r : Resolver} {declared : List Dependency} (h : r.Sensible declared)
    {own : Dependency} (hown : own ∈ declared) (m : Dependency) :
    r.mark (declared.erase own) m = r.mark declared m ↔
      (m.product = own.product → own.optional = true →
        m.optional = true ∨ m.product ∈ r.optional) := by
  have hsame : r.mark (declared.erase own) m = r.mark declared m ↔
      (r.isMarkedOptional (declared.erase own) m.product = true ∨ m.optional = true ↔
        r.isMarkedOptional declared m.product = true ∨ m.optional = true) := by
    rw [← mark_optional, ← mark_optional, ← Bool.eq_iff_iff]
    constructor
    · intro he
      rw [he]
    · intro ho
      simp only [mark_eq] at ho ⊢
      rw [ho]
  rw [hsame, isMarkedOptional_erase h hown]
  by_cases hp : m.product = own.product
  · rw [hp, isMarkedOptional_self h hown]
    by_cases hopt : own.product ∈ r.optional
    · simp [hopt]
    · simp only [hopt, ne_eq, not_true_eq_false, false_and, or_false, false_or, forall_const]
      exact ⟨fun hsame ho => hsame.mpr (.inl ho), fun hkept => ⟨.inr, fun ho => ho.elim hkept id⟩⟩
  · simp only [isMarkedOptional_iff, ne_eq, hp, not_false_eq_true, true_and, or_self_left,
      false_implies]

/-- Reports with the same dependencies up to what is optional list them alike. -/
theorem map_asOptional_ext {s t : Report} (hs : s.ids.Nodup) (ht : t.ids.Nodup)
    (h : ∀ d, d ∈ s.dependencies.map asOptional ↔ d ∈ t.dependencies.map asOptional) :
    s.dependencies.map asOptional = t.dependencies.map asOptional := by
  have hsorted (u : Report) : (u.dependencies.map asOptional).Pairwise (Dependency.le · ·) :=
    List.pairwise_map.mpr u.sorted
  have hids (u : Report) : Report.ids ⟨u.dependencies.map asOptional, hsorted u⟩ = u.ids := by
    unfold Report.ids
    rw [List.map_map]
    rfl
  have hext := Report.ext_of_mem (r := ⟨_, hsorted s⟩) (s := ⟨_, hsorted t⟩)
    (hids s ▸ hs) (hids t ▸ ht) h
  exact congrArg Report.dependencies hext

theorem Redundant.report_alike {r : Resolver} {declared discovered : List Dependency}
    {own found : Dependency} {report report' : Report}
    (h : Redundant declared discovered own found) (hr : r.Resolved declared discovered report)
    (hr' : r.Resolved (declared.erase own) discovered report') :
    report'.dependencies.map asOptional = report.dependencies.map asOptional := by
  apply map_asOptional_ext hr'.nodup hr.nodup
  intro d
  simp only [List.mem_map, hr'.entries, hr.entries, h.entry_iff hr.sensible]
  constructor
  · intro hx
    obtain ⟨e, ⟨m, hm, rfl⟩, rfl⟩ := hx
    exact ⟨r.mark declared m, ⟨m, hm, rfl⟩, by rw [asOptional_mark, asOptional_mark]⟩
  · intro hx
    obtain ⟨e, ⟨m, hm, rfl⟩, rfl⟩ := hx
    exact ⟨r.mark _ m, ⟨m, hm, rfl⟩, by rw [asOptional_mark, asOptional_mark]⟩

theorem Redundant.report_eq_iff {r : Resolver} {declared discovered : List Dependency}
    {own found : Dependency} {report report' : Report}
    (h : Redundant declared discovered own found) (hr : r.Resolved declared discovered report)
    (hr' : r.Resolved (declared.erase own) discovered report') :
    report' = report ↔
      (own.optional = true → found.optional = true ∨ own.product ∈ r.optional) := by
  have hentry (m : Dependency) := h.entry_iff (m := m) hr.sensible
  have hmark (m : Dependency) := mark_erase_eq_iff hr.sensible h.declared m
  have hp := h.same_product
  have hfound : r.Entry declared discovered found := .both h.declared h.folded h.merge
  constructor
  · intro hsame
    have hmem := (hr.entries _).mpr ⟨found, hfound, rfl⟩
    have hmem' := (hr'.entries _).mpr ⟨found, (hentry _).mpr hfound, rfl⟩
    rw [hsame] at hmem'
    have he := List.inj_on_of_nodup_map hr.nodup hmem' hmem (by rw [mark_product, mark_product])
    rw [← hp]
    exact (hmark found).mp he hp
  · intro hcond
    apply Report.ext_of_mem hr'.nodup hr.nodup
    intro e
    simp only [hr'.entries, hr.entries, hentry]
    apply exists_congr
    intro m
    apply and_congr_right
    intro hm
    have hsame : r.mark (declared.erase own) m = r.mark declared m := by
      refine (hmark m).mpr fun hid ho => ?_
      rw [h.unique hr.sensible hm hid, hp]
      exact hcond ho
    rw [hsame]

/-- After a declaration that is called redundant is removed, the report lists the same dependencies.
It is the same report unless the declaration alone made its product optional. -/
theorem resolve_erase_redundant {r : Resolver} {declared discovered : List Dependency}
    {res : Resolution} {a : Advisory} (h : r.resolve declared discovered = .ok res)
    (ha : a ∈ res.advisories) (hk : a.kind = .redundantDeclaration) :
    ∃ res', r.resolve (declared.erase a.declared) discovered = .ok res' ∧
      res'.report.dependencies.map asOptional = res.report.dependencies.map asOptional ∧
      (res'.report = res.report ↔
        (a.declared.optional = true → a.discovered.optional = true ∨ a.product ∈ r.optional)) := by
  have hredundant := resolve_redundant h ha hk
  have hr := resolve_resolved h
  obtain ⟨res', hres'⟩ := exists_resolve_erase h a.declared
  have hr' := resolve_resolved hres'
  exact ⟨res', hres', hredundant.report_alike hr hr', hredundant.report_eq_iff hr hr'⟩

/-- What an artifact recommends, declared once more as optional. -/
def wished : Dependency :=
  .ofFields ⟨"com.example", "lib", "1.0.0", "1.x.x", none, true⟩ rfl

def provided : Dependency :=
  .ofFields ⟨"com.example", "lib", "1.0.0", "1.x.x", none, false⟩ rfl

/-- The declaration is called redundant, but only with it is the product optional. -/
theorem optional_mark_is_lost :
    Resolver.resolve { product := app } [wished] [provided] =
      .ok ⟨.of [wished], [⟨.redundantDeclaration, wished, provided⟩]⟩ ∧
    Resolver.resolve { product := app } ([wished].erase wished) [provided] =
      .ok ⟨.of [provided], []⟩ ∧
    Report.of [provided] ≠ .of [wished] := by
  have hne : Report.of [provided] ≠ .of [wished] := by decide +kernel
  exact ⟨rfl, rfl, hne⟩

theorem resolve_erase_redundant_wished :
    Resolver.resolve { product := app } [wished] [provided] =
      .ok ⟨.of [wished], [⟨.redundantDeclaration, wished, provided⟩]⟩ ∧
    ∃ res', Resolver.resolve { product := app } ([wished].erase wished) [provided] = .ok res' ∧
      res'.report.dependencies.map asOptional = (Report.of [wished]).dependencies.map asOptional ∧
      (res'.report = .of [wished] ↔
        (wished.optional = true → provided.optional = true ∨ wished.product ∈ [])) := by
  have h : Resolver.resolve { product := app } [wished] [provided] =
      .ok ⟨.of [wished], [⟨.redundantDeclaration, wished, provided⟩]⟩ := rfl
  exact ⟨h, resolve_erase_redundant h List.mem_cons_self rfl⟩

end ProductLock.Resolver
