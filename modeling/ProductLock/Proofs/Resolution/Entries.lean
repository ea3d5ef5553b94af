import ProductLock.Proofs.Report
import ProductLock.Proofs.Resolution.Declared

namespace ProductLock.Resolver

open Dependency

/-- What resolution settles on for one product, before it is marked as optional. -/
inductive Entry (r : Resolver) (declared discovered : List Dependency) : Dependency → Prop where
  | declared (hd : d ∈ declared) (hnone : on d.product discovered = []) :
      Entry r declared discovered d
  | discovered (hnone : on m.product declared = []) (hforeign : m.product ≠ r.product)
      (hheeded : m.product ∉ r.ignored) (hm : Folded (on m.product discovered) m) :
      Entry r declared discovered m
  | both (hd : d ∈ declared) (hf : Folded (on d.product discovered) f) (hm : d.merge f = .ok m) :
      Entry r declared discovered m

/-- What the discovered dependencies come to on products that are foreign and not ignored. -/
structure Found (r : Resolver) (discovered found : List Dependency) : Prop where
  nodup : (found.map Dependency.product).Nodup
  mem : ∀ m, m ∈ found ↔ m.product ≠ r.product ∧ m.product ∉ r.ignored ∧
    Folded (on m.product discovered) m
  complete : ∀ id, id ≠ r.product → id ∉ r.ignored → on id discovered ≠ [] →
    ∃ m ∈ found, m.product = id

theorem gather_found {r : Resolver} {discovered gathered : List Dependency}
    (h : r.gather discovered = .ok gathered) :
    Found r discovered (gathered.filter fun d => d.product ∉ r.ignored) := by
  have hg := Gathered.empty.fold h
  rw [List.nil_append] at hg
  have hmem : ∀ m, m ∈ gathered ↔ m.product ≠ r.product ∧ Folded (on m.product discovered) m := by
    intro m
    have hfold : m ∈ gathered ↔
        Folded (on m.product (discovered.filter fun d => d.product ≠ r.product)) m := by
      rw [← hg.lookup]
      exact ⟨lookup_of_mem hg.nodup, fun hl => (lookup_mem hl).1⟩
    rw [hfold]
    by_cases hm : m.product = r.product
    · rw [hm, on_own]
      simp [Folded]
    · rw [on_foreign discovered hm]
      simp [hm]
  refine ⟨hg.nodup.sublist (List.filter_sublist.map _), ?_, ?_⟩
  · intro m
    rw [List.mem_filter, hmem m]
    simp only [decide_eq_true_eq]
    tauto
  · intro id hforeign hheeded hne
    cases hl : lookup id gathered with
    | none =>
      have := hg.none id hl
      rw [on_foreign discovered hforeign] at this
      exact absurd this hne
    | some m =>
      obtain ⟨hm, hp⟩ := lookup_mem hl
      exact ⟨m, List.mem_filter.mpr ⟨hm, by simpa [hp] using hheeded⟩, hp⟩

theorem on_eq_nil {id : ProductId} {ds : List Dependency} :
    on id ds = [] ↔ lookup id ds = none := by
  simp [on, lookup_eq_none]

theorem Found.lookup_eq_none {r : Resolver} {discovered found : List Dependency} {id : ProductId}
    (h : Found r discovered found) (hforeign : id ≠ r.product) (hheeded : id ∉ r.ignored) :
    lookup id found = none ↔ on id discovered = [] := by
  rw [Resolver.lookup_eq_none]
  constructor
  · intro hnone
    by_contra hne
    obtain ⟨m, hm, hp⟩ := h.complete id hforeign hheeded hne
    exact hnone m hm hp
  · intro hnone m hm hp
    obtain ⟨_, _, hf⟩ := (h.mem m).mp hm
    exact hf.ne_nil (hp ▸ hnone)

theorem combine_ok {declared : List Dependency} {d m : Dependency} :
    (∃ a, combine declared d = .ok (m, a)) ↔ (on d.product declared = [] ∧ m = d) ∨
      ∃ own, lookup d.product declared = some own ∧ own.merge d = .ok m := by
  rw [on_eq_nil]
  unfold combine
  cases lookup d.product declared with
  | none => simp [eq_comm]
  | some own => simp [bind_ok, pure_ok]

theorem resolve_ok {r : Resolver} {declared discovered : List Dependency} {res : Resolution} :
    r.resolve declared discovered = .ok res ↔ checkAllDeclared r [] declared = .ok () ∧
      ∃ gathered, r.gather discovered = .ok gathered ∧ ∃ combined,
        (gathered.filter fun d => d.product ∉ r.ignored).mapM (combine declared) = .ok combined ∧
        { report := .of (((declared.filter fun d =>
            (lookup d.product (gathered.filter fun d => d.product ∉ r.ignored)).isNone) ++
              combined.map Prod.fst).map (r.mark declared))
          advisories := combined.filterMap Prod.snd } = res := by
  unfold resolve
  rw [check_ok]
  simp only [bind_ok, pure_ok, Except.ok.injEq]

theorem resolve_eq_error {r : Resolver} {declared discovered : List Dependency} {f : Failure} :
    r.resolve declared discovered = .error f ↔ checkAllDeclared r [] declared = .error f ∨
      checkAllDeclared r [] declared = .ok () ∧ (r.gather discovered = .error f ∨
        ∃ gathered, r.gather discovered = .ok gathered ∧
          (gathered.filter fun d => d.product ∉ r.ignored).mapM (combine declared) = .error f) := by
  unfold resolve
  simp only [bind_error, pure_ok, reduceCtorEq, and_false, exists_const, or_false,
    Unique.exists_iff]

/-- The declarations have all been admitted, and no product is declared twice. -/
structure Sensible (r : Resolver) (declared : List Dependency) : Prop where
  admitted : ∀ d ∈ declared, r.Admitted d
  nodup : (declared.map Dependency.product).Nodup

theorem checkAllDeclared_sensible {r : Resolver} {declared : List Dependency} :
    checkAllDeclared r [] declared = .ok () ↔ r.Sensible declared := by
  rw [checkAllDeclared_ok]
  constructor
  · intro h
    exact ⟨h.1, h.2.2⟩
  · intro h
    exact ⟨h.admitted, fun _ _ e he => absurd he List.not_mem_nil, h.nodup⟩

theorem mem_undisturbed {r : Resolver} {declared discovered found : List Dependency}
    {m : Dependency} (hd : r.Sensible declared) (hf : Found r discovered found) :
    m ∈ (declared.filter fun d => (lookup d.product found).isNone) ↔
      m ∈ declared ∧ on m.product discovered = [] := by
  rw [List.mem_filter, Option.isNone_iff_eq_none]
  apply and_congr_right
  intro hm
  exact hf.lookup_eq_none (hd.admitted m hm).foreign (hd.admitted m hm).heeded

theorem mem_combined {r : Resolver} {declared discovered found : List Dependency}
    {combined : List (Dependency × Option Advisory)} {m : Dependency} (hd : r.Sensible declared)
    (hf : Found r discovered found) (hc : found.mapM (combine declared) = .ok combined) :
    m ∈ combined.map Prod.fst ↔
      (on m.product declared = [] ∧ m ∈ found) ∨
      ∃ d ∈ declared, ∃ f, Folded (on d.product discovered) f ∧ d.merge f = .ok m := by
  have hmem : m ∈ combined.map Prod.fst ↔ ∃ f ∈ found, ∃ a, combine declared f = .ok (m, a) := by
    simp only [List.mem_map, mem_mapM hc]
    constructor
    · intro h
      obtain ⟨⟨n, a⟩, ⟨f, hfound, hok⟩, rfl⟩ := h
      exact ⟨f, hfound, a, hok⟩
    · intro h
      obtain ⟨f, hfound, a, hok⟩ := h
      exact ⟨(m, a), ⟨f, hfound, hok⟩, rfl⟩
  simp only [hmem, combine_ok]
  constructor
  · intro h
    obtain ⟨f, hfound, ⟨hnone, rfl⟩ | ⟨own, hown, hok⟩⟩ := h
    · exact .inl ⟨hnone, hfound⟩
    · obtain ⟨hown, hp⟩ := lookup_mem hown
      exact .inr ⟨own, hown, f, hp ▸ ((hf.mem f).mp hfound).2.2, hok⟩
  · intro h
    rcases h with ⟨hnone, hfound⟩ | ⟨d, hdecl, f, hfold, hok⟩
    · exact ⟨m, hfound, .inl ⟨hnone, rfl⟩⟩
    · have hp : f.product = d.product := hfold.merged.product_eq fun c hc => (mem_on.mp hc).2
      refine ⟨f, (hf.mem f).mpr ⟨?_, ?_, hp ▸ hfold⟩, .inr ⟨d, ?_, hok⟩⟩
      · exact hp ▸ (hd.admitted d hdecl).foreign
      · exact hp ▸ (hd.admitted d hdecl).heeded
      · exact hp ▸ lookup_of_mem hd.nodup hdecl

theorem mem_settled {r : Resolver} {declared discovered found : List Dependency}
    {combined : List (Dependency × Option Advisory)} {m : Dependency} (hd : r.Sensible declared)
    (hf : Found r discovered found) (hc : found.mapM (combine declared) = .ok combined) :
    m ∈ (declared.filter fun d => (lookup d.product found).isNone) ++ combined.map Prod.fst ↔
      r.Entry declared discovered m := by
  rw [List.mem_append, mem_undisturbed hd hf, mem_combined hd hf hc, hf.mem]
  constructor
  · intro h
    rcases h with ⟨hm, hnone⟩ | ⟨hnone, hforeign, hheeded, hm⟩ | ⟨d, hm, f, hfold, hok⟩
    · exact .declared hm hnone
    · exact .discovered hnone hforeign hheeded hm
    · exact .both hm hfold hok
  · intro h
    cases h with
    | declared hm hnone => exact .inl ⟨hm, hnone⟩
    | discovered hnone hforeign hheeded hm => exact .inr (.inl ⟨hnone, hforeign, hheeded, hm⟩)
    | both hm hfold hok => exact .inr (.inr ⟨_, hm, _, hfold, hok⟩)

/-- What a successful resolution reports. -/
structure Resolved (r : Resolver) (declared discovered : List Dependency) (report : Report) :
    Prop where
  sensible : r.Sensible declared
  entries : ∀ e, e ∈ report.dependencies ↔
    ∃ m, r.Entry declared discovered m ∧ r.mark declared m = e
  nodup : report.ids.Nodup
  complete : ∀ c ∈ declared ++ discovered, c.product ≠ r.product → c.product ∉ r.ignored →
    ∃ m, r.Entry declared discovered m ∧ m.product = c.product

theorem mark_product (r : Resolver) (declared : List Dependency) (d : Dependency) :
    (r.mark declared d).product = d.product := by
  unfold mark
  split <;> rfl

theorem mark_terms (r : Resolver) (declared : List Dependency) (d : Dependency) :
    (r.mark declared d).terms = d.terms := by
  unfold mark
  split <;> rfl

theorem mark_products (r : Resolver) (declared ds : List Dependency) :
    (ds.map (r.mark declared)).map Dependency.product = ds.map Dependency.product := by
  rw [List.map_map]
  exact List.map_congr_left fun d _ => mark_product r declared d

theorem combine_product {declared : List Dependency} {d : Dependency}
    {p : Dependency × Option Advisory} (h : combine declared d = .ok p) :
    p.1.product = d.product := by
  rcases combine_ok.mp ⟨p.2, h⟩ with ⟨_, hd⟩ | ⟨own, hown, hm⟩
  · rw [hd]
  · rw [merge_product hm, (lookup_mem hown).2]

theorem resolve_resolved {r : Resolver} {declared discovered : List Dependency} {res : Resolution}
    (h : r.resolve declared discovered = .ok res) : r.Resolved declared discovered res.report := by
  obtain ⟨hchecked, gathered, hg, combined, hc, rfl⟩ := resolve_ok.mp h
  have hd := checkAllDeclared_sensible.mp hchecked
  have hf := gather_found hg
  refine ⟨hd, ?_, ?_, ?_⟩
  · intro e
    rw [Report.mem_of, List.mem_map]
    simp only [mem_settled hd hf hc]
  · apply (Report.ids_of_perm _).nodup_iff.mpr
    rw [mark_products, List.map_append, List.map_map,
      map_mapM (k := Dependency.product ∘ Prod.fst) hc fun _ _ => combine_product]
    refine List.nodup_append.mpr ⟨hd.nodup.sublist (List.filter_sublist.map _), hf.nodup, ?_⟩
    intro id hid id' hid' he
    subst he
    obtain ⟨d, hd, rfl⟩ := List.mem_map.mp hid
    obtain ⟨f, hf, hp⟩ := List.mem_map.mp hid'
    have hnone := (List.mem_filter.mp hd).2
    rw [Option.isNone_iff_eq_none, lookup_eq_none] at hnone
    exact hnone f hf hp
  · intro c hmem hforeign hheeded
    by_cases hdisc : on c.product discovered = []
    · rcases List.mem_append.mp hmem with hc' | hc'
      · exact ⟨c, .declared hc' hdisc, rfl⟩
      · exact absurd (mem_on.mpr ⟨hc', rfl⟩) (hdisc ▸ List.not_mem_nil)
    · obtain ⟨f, hfound, hp⟩ := hf.complete c.product hforeign hheeded hdisc
      obtain ⟨p, hp'⟩ := exists_mapM.mp ⟨combined, hc⟩ f hfound
      have hmem : p.1 ∈ combined.map Prod.fst :=
        List.mem_map_of_mem ((mem_mapM hc).mpr ⟨f, hfound, hp'⟩)
      refine ⟨p.1, (mem_settled hd hf hc).mp (List.mem_append_right _ hmem), ?_⟩
      rw [combine_product hp', hp]

/-- Where every product is declared once, a declaration is all that is declared on its product. -/
theorem on_declared {r : Resolver} {declared : List Dependency} {d : Dependency}
    (h : r.Sensible declared) (hd : d ∈ declared) : on d.product declared = [d] := by
  have hn : (on d.product declared).Nodup := (List.Nodup.of_map _ h.nodup).filter _
  have hall : ∀ e ∈ on d.product declared, e = d := by
    intro e he
    obtain ⟨he, hp⟩ := mem_on.mp he
    exact List.inj_on_of_nodup_map h.nodup he hd hp
  have hmem : d ∈ on d.product declared := mem_on.mpr ⟨hd, rfl⟩
  exact List.perm_singleton.mp ((List.perm_ext_iff_of_nodup hn (List.nodup_singleton d)).mpr
    fun e => ⟨fun he => List.mem_singleton.mpr (hall e he),
      fun he => List.mem_singleton.mp he ▸ hmem⟩)

theorem Entry.merged {r : Resolver} {declared discovered : List Dependency} {m : Dependency}
    (h : r.Entry declared discovered m) (hd : r.Sensible declared) :
    Merged (on m.product (declared ++ discovered)) m := by
  rw [on_append]
  cases h with
  | declared hm hnone =>
    rw [hnone, List.append_nil, on_declared hd hm]
    exact .single m
  | discovered hnone _ _ hm =>
    rw [hnone, List.nil_append]
    exact hm.merged
  | both hown hf hm =>
    rw [merge_product hm, on_declared hd hown]
    exact (Merged.single _).of_merge hf.merged hm

theorem Entry.foreign {r : Resolver} {declared discovered : List Dependency} {m : Dependency}
    (h : r.Entry declared discovered m) (hd : r.Sensible declared) :
    m.product ≠ r.product ∧ m.product ∉ r.ignored := by
  cases h with
  | declared hm => exact ⟨(hd.admitted m hm).foreign, (hd.admitted m hm).heeded⟩
  | discovered _ hforeign hheeded _ => exact ⟨hforeign, hheeded⟩
  | both hown _ hm =>
    rw [merge_product hm]
    exact ⟨(hd.admitted _ hown).foreign, (hd.admitted _ hown).heeded⟩

/-- Each of the dependencies found can be combined with its declaration if both are compatible. -/
theorem exists_combined {r : Resolver} {declared discovered found : List Dependency}
    (hd : r.Sensible declared) (hf : Found r discovered found)
    (hc : ∀ id, id ≠ r.product → Compatible (on id (declared ++ discovered))) :
    ∃ combined, found.mapM (combine declared) = .ok combined := by
  rw [exists_mapM]
  intro f hfound
  obtain ⟨hforeign, _, hfold⟩ := (hf.mem f).mp hfound
  by_cases hnone : on f.product declared = []
  · obtain ⟨a, ha⟩ := combine_ok.mpr (.inl ⟨hnone, rfl⟩)
    exact ⟨(f, a), ha⟩
  · obtain ⟨own, hown⟩ := Option.ne_none_iff_exists'.mp (mt on_eq_nil.mpr hnone)
    obtain ⟨hmem, hp⟩ := lookup_mem hown
    have hcompat := hc f.product hforeign
    rw [on_append, ← hp, on_declared hd hmem, hp] at hcompat
    obtain ⟨m, hm⟩ := (Merged.single own).exists_merge hfold.merged hp hcompat
    obtain ⟨a, ha⟩ := combine_ok.mpr (.inr ⟨own, hown, hm⟩)
    exact ⟨(m, a), ha⟩

theorem on_ignored {r : Resolver} {declared : List Dependency} {id : ProductId}
    (hd : r.Sensible declared) (hid : id ∈ r.ignored) : on id declared = [] := by
  rw [on_eq_nil, lookup_eq_none]
  intro d hmem hp
  exact (hd.admitted d hmem).heeded (hp ▸ hid)

/-- Nothing stops the resolution of sensible declarations if what is declared and discovered on each
foreign product is compatible. -/
theorem exists_resolve {r : Resolver} {declared discovered : List Dependency} :
    (∃ res, r.resolve declared discovered = .ok res) ↔ r.Sensible declared ∧
      ∀ id, id ≠ r.product → Compatible (on id (declared ++ discovered)) := by
  constructor
  · intro h
    obtain ⟨res, hres⟩ := h
    have hr := resolve_resolved hres
    refine ⟨hr.sensible, ?_⟩
    intro id hforeign
    by_cases hheeded : id ∈ r.ignored
    · obtain ⟨_, gathered, hg, _⟩ := resolve_ok.mp hres
      rw [on_append, on_ignored hr.sensible hheeded, List.nil_append]
      exact exists_gather.mp ⟨gathered, hg⟩ id hforeign
    · cases hon : on id (declared ++ discovered) with
      | nil => exact .inl fun hm => nomatch hm
      | cons c cs =>
        obtain ⟨hc, hid⟩ := mem_on.mp (hon ▸ List.mem_cons_self)
        obtain ⟨m, hm, hp⟩ := hr.complete c hc (hid ▸ hforeign) (hid ▸ hheeded)
        rw [← hon, ← hid, ← hp]
        exact (hm.merged hr.sensible).compatible
  · intro h
    obtain ⟨hd, hcompat⟩ := h
    have hgather : ∃ gathered, r.gather discovered = .ok gathered := by
      rw [exists_gather]
      intro id hforeign
      apply (hcompat id hforeign).mono
      intro c hc
      rw [on_append]
      exact List.mem_append_right _ hc
    obtain ⟨gathered, hg⟩ := hgather
    obtain ⟨combined, hc⟩ := exists_combined hd (gather_found hg) hcompat
    exact ⟨_, resolve_ok.mpr ⟨checkAllDeclared_sensible.mpr hd, gathered, hg, combined, hc, rfl⟩⟩

/-- A product to resolve dependencies for. -/
def app : ProductId :=
  ⟨"com.example", "app", by decide +kernel, by decide +kernel⟩

end ProductLock.Resolver
