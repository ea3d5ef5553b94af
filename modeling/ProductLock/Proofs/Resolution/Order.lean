import ProductLock.Proofs.Dependency.Diverging
import ProductLock.Proofs.Resolution.Entries

namespace ProductLock.Resolver

open Dependency Version

/-- What a resolution shows: a report, or that there is none. -/
def reported (x : Except Failure Resolution) : Option Report :=
  x.toOption.map Resolution.report

theorem reported_eq_some {x : Except Failure Resolution} {report : Report} :
    reported x = some report ↔ ∃ res, x = .ok res ∧ res.report = report := by
  simp only [reported, Option.map_eq_some_iff, toOption_eq_some]

theorem reported_eq_none {x : Except Failure Resolution} :
    reported x = none ↔ ¬ ∃ res, x = .ok res := by
  cases x <;> simp [reported, Except.toOption]

theorem on_congr {ds es : List Dependency} (h : ∀ d, d ∈ ds ↔ d ∈ es) (id : ProductId)
    (d : Dependency) : d ∈ on id ds ↔ d ∈ on id es := by
  rw [mem_on, mem_on, h d]

/-- Whether resolution succeeds does not depend on order and repetition. -/
theorem exists_resolve_of_same {r : Resolver} {declared ds es : List Dependency}
    (hset : ∀ d, d ∈ ds ↔ d ∈ es) (h : ∃ res, r.resolve declared ds = .ok res) :
    ∃ res, r.resolve declared es = .ok res := by
  obtain ⟨hs, hc⟩ := exists_resolve.mp h
  refine exists_resolve.mpr ⟨hs, fun id hid => (hc id hid).mono ?_⟩
  intro d hd
  obtain ⟨hd, hp⟩ := mem_on.mp hd
  exact mem_on.mpr ⟨(mem_append_congr declared hset d).mpr hd, hp⟩

theorem Entry.joined {r : Resolver} {declared discovered : List Dependency} {m : Dependency}
    (h : r.Entry declared discovered m) (hs : r.Sensible declared)
    (hne : on m.product discovered ≠ []) :
    Joined (on m.product declared) (on m.product discovered) m := by
  cases h with
  | declared _ hnone => exact absurd hnone hne
  | discovered hnone _ _ hm =>
    rw [hnone]
    exact .alone hm
  | both hd hf hm =>
    rw [merge_product hm, on_declared hs hd]
    exact .declared hf hm

/-- Where nothing is unsettled, an entry depends only on what was discovered. -/
theorem Entry.unique {r : Resolver} {declared ds es : List Dependency} {m n : Dependency}
    (hm : r.Entry declared ds m) (hn : r.Entry declared es n) (hs : r.Sensible declared)
    (hset : ∀ d, d ∈ ds ↔ d ∈ es) (hp : m.product = n.product)
    (h : ∀ x y, ¬ Unsettled (on m.product declared) (on m.product ds) x y) : m = n := by
  by_cases hne : on m.product ds = []
  · have hne' : on n.product es = [] := by
      rw [← hp, List.eq_nil_iff_forall_not_mem]
      intro d hd
      rw [← on_congr hset, hne] at hd
      exact List.not_mem_nil hd
    cases hm with
    | declared hd _ =>
      cases hn with
      | declared he _ => exact List.inj_on_of_nodup_map hs.nodup hd he hp
      | discovered _ _ _ hf => exact absurd hne' hf.ne_nil
      | both _ hf hok => exact absurd (merge_product hok ▸ hne') hf.ne_nil
    | discovered _ _ _ hf => exact absurd hne hf.ne_nil
    | both _ hf hok => exact absurd (merge_product hok ▸ hne) hf.ne_nil
  · have hne' : on n.product es ≠ [] := by
      obtain ⟨d, hd⟩ := List.exists_mem_of_ne_nil _ hne
      exact List.ne_nil_of_mem ((on_congr hset _ d).mp (hp ▸ hd))
    have hjoined := hn.joined hs hne'
    rw [← hp] at hjoined
    exact (hm.joined hs hne).unique hjoined (on_congr hset _) h

/-- On no product in the report does the order of what was discovered decide anything. -/
def Settled (r : Resolver) (declared discovered : List Dependency) : Prop :=
  ∀ id, id ≠ r.product → id ∉ r.ignored →
    ∀ x y, ¬ Unsettled (on id declared) (on id discovered) x y

/-- What one report contains, the other contains, if they agree on what stands for a product. -/
theorem Resolved.mem_of_unique {r : Resolver} {declared ds es : List Dependency}
    {report report' : Report} (h : r.Resolved declared ds report)
    (h' : r.Resolved declared es report') (hset : ∀ d, d ∈ ds ↔ d ∈ es)
    (hunique : ∀ m n, r.Entry declared ds m → r.Entry declared es n → m.product = n.product → m = n)
    {e : Dependency} (he : e ∈ report.dependencies) : e ∈ report'.dependencies := by
  obtain ⟨m, hm, rfl⟩ := (h.entries e).mp he
  obtain ⟨hforeign, hheeded⟩ := hm.foreign h.sensible
  obtain ⟨c, hc⟩ := List.exists_mem_of_ne_nil _ (hm.merged h.sensible).nonempty
  obtain ⟨hc, hp⟩ := mem_on.mp hc
  have hc' : c ∈ declared ++ es := (mem_append_congr declared hset c).mp hc
  obtain ⟨n, hn, hnp⟩ := h'.complete c hc' (hp ▸ hforeign) (hp ▸ hheeded)
  have hmn : m = n := hunique m n hm hn (hp ▸ hnp.symm)
  exact (h'.entries _).mpr ⟨n, hn, by rw [hmn]⟩

theorem Resolved.same_report {r : Resolver} {declared ds es : List Dependency}
    {report report' : Report} (h : r.Resolved declared ds report)
    (h' : r.Resolved declared es report') (hset : ∀ d, d ∈ ds ↔ d ∈ es)
    (hsettled : r.Settled declared ds) : report = report' := by
  have hunique : ∀ m n, r.Entry declared ds m → r.Entry declared es n → m.product = n.product →
      m = n := by
    intro m n hm hn hp
    obtain ⟨hforeign, hheeded⟩ := hm.foreign h.sensible
    exact hm.unique hn h.sensible hset hp (hsettled m.product hforeign hheeded)
  apply Report.ext_of_mem h.nodup h'.nodup
  intro e
  constructor
  · intro he
    exact h.mem_of_unique h' hset hunique he
  · intro he
    apply h'.mem_of_unique h (fun d => (hset d).symm) _ he
    intro n m hn hm hp
    exact (hunique m n hm hn hp.symm).symm

/-- Discovered dependencies with those on one product replaced. -/
def replaceOn (id : ProductId) (ds cs : List Dependency) : List Dependency :=
  (ds.filter fun d => d.product ≠ id) ++ cs

theorem mem_replaceOn {id : ProductId} {ds cs : List Dependency}
    (h : ∀ d, d ∈ cs ↔ d ∈ on id ds) (d : Dependency) : d ∈ replaceOn id ds cs ↔ d ∈ ds := by
  rw [replaceOn, List.mem_append, List.mem_filter, h d, mem_on]
  by_cases hd : d.product = id <;> simp [hd]

theorem on_replaceOn {id : ProductId} {ds cs : List Dependency}
    (h : ∀ d, d ∈ cs ↔ d ∈ on id ds) : on id (replaceOn id ds cs) = cs := by
  have hnone : on id (ds.filter fun d => d.product ≠ id) = [] := by
    simp [on, List.filter_filter]
  have hall : on id cs = cs := by
    apply List.filter_eq_self.mpr
    intro d hd
    simpa using (mem_on.mp ((h d).mp hd)).2
  rw [replaceOn, on_append, hnone, hall, List.nil_append]

/-- Where one product's dependencies are rearranged, its entry is what the new order comes to. -/
theorem exists_joined {r : Resolver} {declared ds cs : List Dependency} {id : ProductId}
    {res : Resolution} (hres : r.resolve declared (replaceOn id ds cs) = .ok res)
    (h : ∀ d, d ∈ cs ↔ d ∈ on id ds) (hne : cs ≠ []) (hforeign : id ≠ r.product)
    (hheeded : id ∉ r.ignored) : ∃ m, Joined (on id declared) cs m ∧
      ∃ e ∈ res.report.dependencies, e.product = id ∧ e.terms = m.terms := by
  have hr := resolve_resolved hres
  obtain ⟨c, hc⟩ := List.exists_mem_of_ne_nil cs hne
  obtain ⟨hmem, hp⟩ := mem_on.mp ((h c).mp hc)
  have hmem : c ∈ declared ++ replaceOn id ds cs :=
    List.mem_append_right _ ((mem_replaceOn h c).mpr hmem)
  obtain ⟨m, hm, hmp⟩ := hr.complete c hmem (hp ▸ hforeign) (hp ▸ hheeded)
  have hmid : m.product = id := hmp.trans hp
  subst hmid
  have hjoined := hm.joined hr.sensible
  rw [on_replaceOn h] at hjoined
  exact ⟨m, hjoined hne, r.mark declared m, (hr.entries _).mpr ⟨m, hm, rfl⟩,
    mark_product r declared m, mark_terms r declared m⟩

/-- All orders of what was discovered, with and without repetitions, show the same exactly if, should
there be a report, nothing is unsettled on any product in it. -/
theorem resolve_order_iff {r : Resolver} {declared discovered : List Dependency} :
    (∀ second, (∀ d, d ∈ discovered ↔ d ∈ second) →
      reported (r.resolve declared discovered) = reported (r.resolve declared second)) ↔
    ((∃ res, r.resolve declared discovered = .ok res) → r.Settled declared discovered) := by
  constructor
  · intro h hok id hforeign hheeded x y hunsettled
    obtain ⟨res, hres⟩ := hok
    have hcompat : Compatible (on id discovered) := by
      apply ((exists_resolve.mp ⟨res, hres⟩).2 id hforeign).mono
      intro c hc
      rw [on_append]
      exact List.mem_append_right _ hc
    have hshown : ∀ cs, (∀ d, d ∈ cs ↔ d ∈ on id discovered) →
        ∃ m, Joined (on id declared) cs m ∧
          ∃ e ∈ res.report.dependencies, e.product = id ∧ e.terms = m.terms := by
      intro cs hcs
      have hsame := h (replaceOn id discovered cs) fun d => (mem_replaceOn hcs d).symm
      rw [reported_eq_some.mpr ⟨res, hres, rfl⟩] at hsame
      obtain ⟨res', hres', hreport⟩ := reported_eq_some.mp hsame.symm
      obtain ⟨s, hs, _⟩ := hunsettled.lower
      obtain ⟨c, hc, _⟩ := mem_termsOf.mp hs
      rw [← hreport]
      exact exists_joined hres' hcs (List.ne_nil_of_mem ((hcs c).mpr hc)) hforeign hheeded
    obtain ⟨base, hbase, hdiverge⟩ := hunsettled.diverges hcompat
    obtain ⟨m, hm, e, he, hep, hem⟩ := hshown base hbase
    obtain ⟨q, hq, hne⟩ := hdiverge m hm
    have hlonger : ∀ d, d ∈ base ++ [q] ↔ d ∈ on id discovered := by
      intro d
      rw [List.mem_append, hbase d, List.mem_singleton]
      exact or_iff_left_of_imp fun hdq => hdq ▸ hq
    obtain ⟨n, hn, e', he', hep', hen⟩ := hshown (base ++ [q]) hlonger
    have hee : e = e' :=
      List.inj_on_of_nodup_map (resolve_resolved hres).nodup he he' (hep.trans hep'.symm)
    exact hne n hn (by rw [← hem, ← hen, hee])
  · intro h second hset
    by_cases hok : ∃ res, r.resolve declared discovered = .ok res
    · obtain ⟨res, hres⟩ := hok
      obtain ⟨res', hres'⟩ := exists_resolve_of_same hset ⟨res, hres⟩
      have hsame := (resolve_resolved hres).same_report (resolve_resolved hres') hset
        (h ⟨res, hres⟩)
      rw [reported_eq_some.mpr ⟨res, hres, rfl⟩, reported_eq_some.mpr ⟨res', hres', hsame.symm⟩]
    · have hok' : ¬ ∃ res, r.resolve declared second = .ok res := by
        intro h'
        exact hok (exists_resolve_of_same (fun d => (hset d).symm) h')
      rw [reported_eq_none.mpr hok, reported_eq_none.mpr hok']

/-- Order matters only where a recommendation is allowed by its own maximum and not by all. -/
theorem settled_of_no_stray {r : Resolver} {declared discovered : List Dependency}
    (h : ∀ id p w, ¬ Stray (on id discovered) p w) : r.Settled declared discovered := by
  intro id _ _ x y hunsettled
  obtain ⟨s, hs, hy⟩ := hunsettled.upper
  obtain ⟨p, w, hstray, _⟩ := hunsettled.masked s hs y hy hunsettled.allowed_upper (.inr le_rfl)
  exact h id p w hstray

/-- Three recommendations: a high one, a lower one, and a maximum between the two. -/
def high : Dependency :=
  .ofFields ⟨"com.example", "lib", "1.0.0", "9.x.x", some "5.0.0", false⟩ rfl

def lower : Dependency :=
  .ofFields ⟨"com.example", "lib", "1.0.0", "9.x.x", some "3.0.0", false⟩ rfl

def between : Dependency :=
  .ofFields ⟨"com.example", "lib", "1.0.0", "4.x.x", none, false⟩ rfl

/-- The lower recommendation is lost if the high one comes before the maximum. -/
theorem high_hides_lower :
    (∀ d, d ∈ [high, lower, between] ↔ d ∈ [lower, between, high]) ∧
    reported (Resolver.resolve { product := app } [] [high, lower, between]) ≠
      reported (Resolver.resolve { product := app } [] [lower, between, high]) := by
  have hperm : ([high] ++ [lower, between]).Perm ([lower, between] ++ [high]) :=
    List.perm_append_comm
  exact ⟨fun d => hperm.mem_iff, by decide +kernel⟩

end ProductLock.Resolver
