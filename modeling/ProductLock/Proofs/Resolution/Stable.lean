import ProductLock.Proofs.Resolution.Contents
import ProductLock.Proofs.Resolution.Satisfiable

namespace ProductLock.Resolver

open Dependency Version

/-- What was discovered on the product of an entry adds nothing to the entry. -/
theorem Entry.exists_folded {r : Resolver} {declared discovered : List Dependency}
    {m : Dependency} {t : Terms} (h : r.Entry declared discovered m) (ht : m.terms = some t)
    (hs : t.Sound) (hne : on m.product discovered ≠ []) :
    ∃ f u, Folded (on m.product discovered) f ∧ f.terms = some u ∧ t.meet u = t := by
  cases h with
  | declared _ hnone => exact absurd hnone hne
  | discovered _ _ _ hm => exact ⟨m, t, hm, ht, Terms.meet_self hs⟩
  | both hd hf hm =>
    next d f =>
    rw [merge_product hm]
    by_cases hdf : d = f
    · subst hdf
      rw [merge_self, Except.ok.injEq] at hm
      subst hm
      exact ⟨d, t, hf, ht, Terms.meet_self hs⟩
    · obtain ⟨s, u, _, hu, _, hmt, _⟩ := merge_terms hdf hm
      rw [ht, Option.some.injEq] at hmt
      subst hmt
      exact ⟨f, u, hf, hu, Terms.meet_meet s u⟩

theorem Resolved.eq_of_product {r : Resolver} {declared discovered : List Dependency}
    {report : Report} (h : r.Resolved declared discovered report) {d e : Dependency}
    (hd : d ∈ report.dependencies) (he : e ∈ report.dependencies) (hp : d.product = e.product) :
    d = e :=
  List.inj_on_of_nodup_map h.nodup hd he hp

theorem Resolved.optional_of_listed {r : Resolver} {declared discovered : List Dependency}
    {report : Report} (h : r.Resolved declared discovered report) {e : Dependency}
    (he : e ∈ report.dependencies) (hlisted : e.product ∈ r.optional) : e.optional = true := by
  obtain ⟨m, _, rfl⟩ := (h.entries e).mp he
  rw [mark_product] at hlisted
  exact mark_optional.mpr (.inl (isMarkedOptional_iff.mpr (.inl hlisted)))

/-- What is reported has its mark, and declaring it gives no other. -/
theorem Resolved.mark_eq {r : Resolver} {declared discovered : List Dependency} {report : Report}
    (h : r.Resolved declared discovered report) {d e : Dependency} {t : Terms}
    (he : e ∈ report.dependencies) (hp : d.product = e.product) (hd : d.terms = some t)
    (ht : e.terms = some t) (ho : d.optional = true → e.optional = true) :
    r.mark report.dependencies d = e := by
  refine terms_injective (mark_terms r _ d ▸ hd) ht (mark_product r _ d ▸ hp) ?_
  rw [Bool.eq_iff_iff, mark_optional, isMarkedOptional_iff, hp]
  constructor
  · intro hmarked
    rcases hmarked with (hlisted | ⟨c, hc, hcp, hco⟩) | hdo
    · exact h.optional_of_listed he hlisted
    · exact h.eq_of_product hc he hcp ▸ hco
    · exact ho hdo
  · intro heo
    exact .inl (.inr ⟨e, he, rfl, heo⟩)

/-- What a reported dependency comes to when it is declared and what was discovered on its product is
merged into it once more. -/
theorem Resolved.exists_merge {r : Resolver} {declared discovered : List Dependency}
    {report : Report} (h : r.Resolved declared discovered report) {e : Dependency}
    (he : e ∈ report.dependencies) (hs : e.Satisfiable) (hne : on e.product discovered ≠ []) :
    ∃ f m, Folded (on e.product discovered) f ∧ e.merge f = .ok m ∧
      r.mark report.dependencies m = e := by
  obtain ⟨t, ht, hsound⟩ := hs.exists_terms
  obtain ⟨m, hm, rfl⟩ := (h.entries e).mp he
  rw [mark_product] at hne
  rw [mark_terms] at ht
  obtain ⟨f, u, hf, hu, hmeet⟩ := hm.exists_folded ht hsound hne
  have hfp : f.product = m.product := hf.merged.product_eq fun c hc => (mem_on.mp hc).2
  obtain ⟨n, hn, hnp, hnt, hno⟩ := merge_of_meet_eq ((mark_product r declared m).trans hfp.symm)
    (mark_terms r declared m ▸ ht) hu hsound hmeet
  refine ⟨f, n, mark_product r declared m ▸ hf, hn, ?_⟩
  apply h.mark_eq he hnp hnt (mark_terms r declared m ▸ ht)
  intro ho
  rw [hno, Bool.and_eq_true] at ho
  exact ho.1

theorem checkMergeable_of_satisfiable {d : Dependency} (h : d.Satisfiable) :
    checkMergeable d = .ok () := by
  obtain ⟨l, u, hl, hu, hle⟩ := withinMaximum_ok.mp h.window
  refine checkMergeable_ok.mpr ⟨⟨l, u, hl, hu, of_decide_eq_true hle⟩, ?_⟩
  intro v hv
  obtain ⟨b, hb, _⟩ := (inWindow_ok hl hu).mp (h.recommended v hv)
  exact isOrderable_of_level hb

/-- A report of dependencies that can be satisfied can be declared. -/
theorem Resolved.sensible_report {r : Resolver} {declared discovered : List Dependency}
    {report : Report} (h : r.Resolved declared discovered report)
    (hs : ∀ e ∈ report.dependencies, e.Satisfiable) : r.Sensible report.dependencies where
  admitted e he := by
    obtain ⟨m, hm, hme⟩ := (h.entries e).mp he
    have hp : m.product = e.product := hme ▸ (mark_product r declared m).symm
    obtain ⟨hforeign, hheeded⟩ := hm.foreign h.sensible
    refine ⟨hp ▸ hforeign, hp ▸ hheeded, ?_, checkMergeable_of_satisfiable (hs e he)⟩
    intro hconflict
    obtain ⟨hlisted, ho, _⟩ := hconflict
    rw [h.optional_of_listed he hlisted] at ho
    contradiction
  nodup := h.nodup

theorem Resolved.compatible_report {r : Resolver} {declared discovered : List Dependency}
    {report : Report} (h : r.Resolved declared discovered report)
    (hs : ∀ e ∈ report.dependencies, e.Satisfiable) {id : ProductId}
    (hc : Compatible (on id (declared ++ discovered))) :
    Compatible (on id (report.dependencies ++ discovered)) := by
  rw [on_append] at hc ⊢
  by_cases hnone : on id report.dependencies = []
  · rw [hnone, List.nil_append]
    exact hc.mono fun c hc => List.mem_append_right _ hc
  · obtain ⟨e, hmem⟩ := List.exists_mem_of_ne_nil _ hnone
    obtain ⟨he, rfl⟩ := mem_on.mp hmem
    rw [on_declared (h.sensible_report hs) he]
    by_cases hdisc : on e.product discovered = []
    · rw [hdisc, List.append_nil]
      exact (Merged.single e).compatible
    · obtain ⟨f, m, hf, hm, _⟩ := h.exists_merge he (hs e he) hdisc
      exact ((Merged.single e).of_merge hf.merged hm).compatible

/-- What is reported is all that comes of declaring it. -/
theorem Resolved.mark_entry {r : Resolver} {declared discovered : List Dependency}
    {report : Report} (h : r.Resolved declared discovered report)
    (hs : ∀ e ∈ report.dependencies, e.Satisfiable) {m : Dependency}
    (hm : r.Entry report.dependencies discovered m) :
    r.mark report.dependencies m ∈ report.dependencies := by
  cases hm with
  | declared he hnone =>
    obtain ⟨t, ht, _⟩ := (hs m he).exists_terms
    rwa [h.mark_eq he rfl ht ht id]
  | discovered hnone hforeign hheeded hf =>
    obtain ⟨c, hc⟩ := List.exists_mem_of_ne_nil _ hf.ne_nil
    obtain ⟨hc, hp⟩ := mem_on.mp hc
    obtain ⟨e, he, hep⟩ := List.mem_map.mp
      (h.mem_ids.mpr (.inr ⟨c, hc, hp, hforeign, hheeded⟩))
    exact absurd (mem_on.mpr ⟨he, hep⟩) (hnone ▸ List.not_mem_nil)
  | both he hf hm =>
    next e f =>
    obtain ⟨f', m', hf', hm', hmark⟩ := h.exists_merge he (hs e he) hf.ne_nil
    rw [hf.unique hf', hm', Except.ok.injEq] at hm
    rwa [← hm, hmark]

/-- Where every reported dependency can be satisfied, resolution has settled: it can be run on its own
report, with the same discovered dependencies, and reports the same. -/
theorem resolve_report {r : Resolver} {declared discovered : List Dependency} {res : Resolution}
    (h : r.resolve declared discovered = .ok res)
    (hs : ∀ e ∈ res.report.dependencies, e.Satisfiable) :
    ∃ again, r.resolve res.report.dependencies discovered = .ok again ∧
      again.report = res.report := by
  have hr := resolve_resolved h
  have hcompat := (exists_resolve.mp ⟨res, h⟩).2
  obtain ⟨again, hagain⟩ := exists_resolve.mpr
    ⟨hr.sensible_report hs, fun id hid => hr.compatible_report hs (hcompat id hid)⟩
  have hr' := resolve_resolved hagain
  have hsub : ∀ e ∈ again.report.dependencies, e ∈ res.report.dependencies := by
    intro e he
    obtain ⟨m, hm, rfl⟩ := (hr'.entries e).mp he
    exact hr.mark_entry hs hm
  refine ⟨again, hagain, Report.ext_of_mem hr'.nodup hr.nodup fun e => ⟨hsub e, ?_⟩⟩
  intro he
  have hdeclared : e.product ∈ again.report.ids := hr'.mem_ids.mpr (.inl ⟨e, he, rfl⟩)
  obtain ⟨e', he', hp⟩ := List.mem_map.mp hdeclared
  exact hr.eq_of_product (hsub e' he') he hp ▸ he'

/-- A declaration, what is recommended for its product, and what the two come to. -/
def chosen : Dependency :=
  .ofFields ⟨"com.example", "lib", "1.0.0", "1.x.x", some "1.3.0", false⟩ rfl

def advised : Dependency :=
  .ofFields ⟨"com.example", "lib", "1.1.0", "2.x.x", some "1.4.0", true⟩ rfl

def agreed : Dependency :=
  .ofFields ⟨"com.example", "lib", "1.1.0", "1.x.x", some "1.4.0", false⟩ rfl

theorem agreed_satisfiable : agreed.Satisfiable where
  window := rfl
  recommended v hv := by
    cases hv
    rfl

theorem resolve_report_agreed : ∃ advisories,
    Resolver.resolve { product := app } [chosen] [advised] = .ok ⟨.of [agreed], advisories⟩ ∧
    (∀ e ∈ (Report.of [agreed]).dependencies, e.Satisfiable) ∧
    ∃ again, Resolver.resolve { product := app } (Report.of [agreed]).dependencies [advised] =
      .ok again ∧ again.report = .of [agreed] := by
  have h : Resolver.resolve { product := app } [chosen] [advised] = .ok ⟨.of [agreed], _⟩ := rfl
  have hs : ∀ e ∈ (Report.of [agreed]).dependencies, e.Satisfiable := by
    intro e he
    rw [List.mem_singleton.mp (Report.mem_of.mp he)]
    exact agreed_satisfiable
  exact ⟨_, h, hs, resolve_report h hs⟩

/-- Of a dependency that nothing satisfies a report can be made, but the report cannot be declared. -/
example : ∃ f, Resolver.resolve { product := app } (Report.of [inverted]).dependencies [inverted] =
    .error f :=
  ⟨_, rfl⟩

end ProductLock.Resolver
