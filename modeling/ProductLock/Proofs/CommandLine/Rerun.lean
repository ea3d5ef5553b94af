import ProductLock.Proofs.CommandLine.Resolve
import ProductLock.Proofs.Manifest

namespace ProductLock.CommandLine

open Plan ProductLock.Tree

variable {services : Services} {t t' : Tree} {o : ResolveOptions} {c : Config}

def ResolveOptions.lockfilePath (o : ResolveOptions) (c : Config) : Path :=
  o.lockfile.getD c.lockfile

def ResolveOptions.manifestPath (o : ResolveOptions) (c : Config) : Path :=
  o.manifest.getD c.manifest

/-- What a run with a configuration reads in a tree. -/
def ResolveOptions.sources (o : ResolveOptions) (t : Tree) (c : Config) : Sources where
  config := c
  blobs := o.discovered.map fun path => (path, t.read path)
  lockfile := o.lockfilePath c
  existing := t.read (o.lockfilePath c)

/-- The files that a run only reads. -/
def ResolveOptions.inputs (o : ResolveOptions) : List Path :=
  o.config :: o.discovered

/-- The files that a run writes. -/
def ResolveOptions.outputs (o : ResolveOptions) (c : Config) : List Path :=
  o.lockfilePath c :: o.manifestPath c :: o.report.toList

/-- No file of a run gets in the way of another: what is written lies apart from all else, and no
path steps up. -/
structure Separate (o : ResolveOptions) (c : Config) : Prop where
  plain : ∀ p ∈ o.inputs ++ o.outputs c, p.IsPlain
  outputs : (o.outputs c).Pairwise Path.Apart
  inputs : ∀ p ∈ o.inputs, ∀ q ∈ o.outputs c, p.Apart q

instance (o : ResolveOptions) (c : Config) : Decidable (Separate o c) :=
  decidable_of_iff
    ((∀ p ∈ o.inputs ++ o.outputs c, p.IsPlain) ∧ (o.outputs c).Pairwise Path.Apart ∧
      ∀ p ∈ o.inputs, ∀ q ∈ o.outputs c, p.Apart q)
    ⟨fun h => ⟨h.1, h.2.1, h.2.2⟩, fun h => ⟨h.plain, h.outputs, h.inputs⟩⟩

theorem run_read (t : Tree) (path : Path) :
    Id.run (t.read path : Id (Except FileFault ByteArray)) = t.read path :=
  rfl

/-- The configuration that a run finds in a tree. -/
def ResolveOptions.load (o : ResolveOptions) (services : Services) (t : Tree) :
    Except Failure Config :=
  Config.loadBy services.value o.config (t.read o.config)

/-- What a run in a tree is to do. -/
def ResolveOptions.plan (o : ResolveOptions) (services : Services) (t : Tree) : Plan Unit :=
  Id.run ((Request.resolve o).plan services fun path => t.read path)

theorem plan_failed {f : Failure} (h : o.load services t = .error f) :
    o.plan services t = Plan.fail f := by
  rw [ResolveOptions.load] at h
  simp only [ResolveOptions.plan, Request.plan, resolveReading, Id.run_bind, run_read, h]
  rfl

theorem plan_resolve (h : o.load services t = .ok c) :
    o.plan services t = resolvePlan services o (o.sources t c) := by
  have hblobs : Id.run (o.discovered.mapM fun path => do return (path, ← t.read path)) =
      o.discovered.map fun path => (path, t.read path) := by
    rw [List.idRun_mapM]
    rfl
  rw [ResolveOptions.load] at h
  simp only [ResolveOptions.plan, Request.plan, resolveReading, Id.run_bind, run_read, h, hblobs]
  rfl

/-- How a run ends, before it is explained. -/
def ResolveOptions.result (o : ResolveOptions) (services : Services) (t : Tree) :
    Except Failure Unit :=
  (t.perform (o.plan services t)).result

theorem ending_eq (services : Services) (t : Tree) (o : ResolveOptions) :
    (runRequest services t (.resolve o)).ending =
      match o.result services t with
      | .ok () => ⟨0, none⟩
      | .error f => (explain f).2 := by
  unfold runRequest ResolveOptions.result ResolveOptions.plan
  generalize t.perform _ = performed
  obtain ⟨_, _, result⟩ := performed
  cases result <;> rfl

theorem exit_eq_zero_iff :
    (runRequest services t (.resolve o)).ending.exit = 0 ↔ o.result services t = .ok () := by
  rw [ending_eq]
  cases o.result services t with
  | ok u => exact iff_of_true rfl rfl
  | error f =>
    have hexit : (explain f).2.exit ≠ 0 := by
      unfold explain
      split <;> exact Nat.one_ne_zero
    exact iff_of_false hexit nofun

theorem run_eq {arguments : List String} {environment : Option String}
    (h : Request.ofArguments arguments environment = some (.resolve o)) :
    run services t arguments environment = runRequest services t (.resolve o) := by
  rw [run, h]

theorem tree_eq (services : Services) (t : Tree) (o : ResolveOptions) :
    (runRequest services t (.resolve o)).tree = (t.perform (o.plan services t)).tree :=
  rfl

theorem runRequest_of_yields (h : o.load services t = .ok c)
    (hy : Yields t (resolvePlan services o (o.sources t c)) t' ()) :
    (runRequest services t (.resolve o)).ending = ⟨0, none⟩ ∧
      (runRequest services t (.resolve o)).tree = t' := by
  obtain ⟨hresult, htree⟩ := perform_of_yields hy
  rw [ending_eq, tree_eq, ResolveOptions.result, plan_resolve h, hresult]
  exact ⟨rfl, htree⟩

/-- A run ends with zero only when there is a configuration and the plan made from it succeeds. -/
theorem yields_of_exit (hexit : (runRequest services t (.resolve o)).ending.exit = 0) :
    ∃ c, o.load services t = .ok c ∧ Yields t (resolvePlan services o (o.sources t c))
      (runRequest services t (.resolve o)).tree () := by
  have hresult : o.result services t = .ok () := exit_eq_zero_iff.mp hexit
  cases hload : o.load services t with
  | error f =>
    rw [ResolveOptions.result, plan_failed hload] at hresult
    contradiction
  | ok c =>
    rw [ResolveOptions.result, plan_resolve hload] at hresult
    refine ⟨c, rfl, ?_⟩
    rw [tree_eq, plan_resolve hload]
    exact yields_of_perform hresult

/-- All that a run writes, as it should be for a report. -/
structure InLine (t : Tree) (o : ResolveOptions) (c : Config) (report : Report)
    (manifest : String) : Prop where
  rooted : t.Rooted
  lockfile : Lockfile.contents (t.read (o.lockfilePath c)) = .ok (Lockfile.render c.workspace report)
  documents : ∀ f ∈ o.documents c report manifest, t.Holds f.1 f.2

theorem documents_paths (o : ResolveOptions) (c : Config) (report : Report) (manifest : String) :
    (o.documents c report manifest).map Prod.fst = o.manifestPath c :: o.report.toList := by
  cases h : o.report <;>
    simp [ResolveOptions.documents, ResolveOptions.reports, ResolveOptions.manifestPath, h]

theorem Separate.documents (hs : Separate o c) (report : Report) (manifest : String) :
    (∀ f ∈ o.documents c report manifest, f.1.IsPlain) ∧
    (o.documents c report manifest).Pairwise (fun f g => f.1.Apart g.1) ∧
    ∀ p ∈ o.lockfilePath c :: o.inputs, ∀ f ∈ o.documents c report manifest, p.Apart f.1 := by
  have hpaths := documents_paths o c report manifest
  have hmem (f) (hf : f ∈ o.documents c report manifest) :
      f.1 ∈ o.manifestPath c :: o.report.toList := hpaths ▸ List.mem_map_of_mem hf
  obtain ⟨hlock, hpairwise⟩ := List.pairwise_cons.mp hs.outputs
  refine ⟨?_, ?_, ?_⟩
  · intro f hf
    exact hs.plain f.1 (List.mem_append_right _ (List.mem_cons_of_mem _ (hmem f hf)))
  · rw [← hpaths] at hpairwise
    exact List.pairwise_map.mp hpairwise
  · intro p hp f hf
    rcases List.mem_cons.mp hp with rfl | hp
    · exact hlock f.1 (hmem f hf)
    · exact hs.inputs p hp f.1 (List.mem_cons_of_mem _ (hmem f hf))

/-- A run that succeeds brings all its files in line and leaves what it only reads. -/
theorem inLine_of_yields (ht : t.Rooted) (hs : Separate o c)
    (hy : Yields t (resolvePlan services o (o.sources t c)) t' ()) :
    ∃ product report document manifest,
      (prepare (o.sources t c)).result = .ok (product, report, document) ∧
      Manifest.render document = .ok manifest ∧ InLine t' o c report manifest ∧
      services.Shows (closingLine product report (o.manifestPath c)) ∧
      ∀ p ∈ o.inputs, t'.read p = t.read p := by
  obtain ⟨product, report, document, existing, outcome, manifest, t₁, hprepare, hexisting, hsync,
    _, hshows, hrender, hwrites⟩ := resolvePlan_yields.mp hy
  obtain ⟨hplain, hapart, haway⟩ := hs.documents report manifest
  have hlock : (o.lockfilePath c).IsPlain := hs.plain _ (by simp [ResolveOptions.outputs])
  obtain ⟨hcontents, hconfined⟩ := Lockfile.sync_yields ht hlock
    (fun _ => Lockfile.writable_render) hexisting hsync
  obtain ⟨hrooted, hholds, hframe⟩ := writes_hold hconfined.rooted hplain hapart hwrites
  refine ⟨product, report, document, manifest, hprepare, hrender, ⟨hrooted, ?_, hholds⟩, hshows, ?_⟩
  · rw [hframe _ hlock (haway _ List.mem_cons_self)]
    exact hcontents
  · intro p hp
    have hpPlain : p.IsPlain := hs.plain p (List.mem_append_left _ hp)
    rw [hframe p hpPlain (haway p (List.mem_cons_of_mem _ hp))]
    exact hconfined.read_eq p hpPlain (hs.inputs p hp _ List.mem_cons_self)

/-- Where all files of a run are in line, it succeeds in either mode and changes nothing. -/
theorem InLine.yields {product : ProductId} {report : Report} {document : List (String × Value)}
    {manifest : String} (h : InLine t o c report manifest) (hs : Separate o c)
    (hprepare : (prepare (o.sources t c)).result = .ok (product, report, document))
    (hrender : Manifest.render document = .ok manifest)
    (hshows : services.Shows (closingLine product report (o.manifestPath c))) :
    ∃ t', Yields t (resolvePlan services o (o.sources t c)) t' () ∧ t'.lookup = t.lookup := by
  obtain ⟨hplain, -, -⟩ := hs.documents report manifest
  obtain ⟨outcome, hsync, houtcome⟩ := Lockfile.sync_self t o.mode (o.lockfilePath c)
    (Lockfile.render c.workspace report)
  -- The lockfile does not change, and nothing is said of it.
  have htells : services.Tells (o.lockfilePath c) outcome := by
    rcases houtcome with rfl | rfl <;> nofun
  obtain ⟨t', hwrites, hsame⟩ := writes_again h.rooted hplain h.documents
  exact ⟨t', resolvePlan_yields.mpr ⟨product, report, document, _, outcome, manifest, t, hprepare,
    h.lockfile, hsync, htells, hshows, hrender, hwrites⟩, hsame⟩

theorem prepare_ok {s : Sources} {product : ProductId} {report : Report}
    {document : List (String × Value)} (h : (prepare s).result = .ok (product, report, document)) :
    (Manifest.build product s.config.type.name s.config.version report s.config.extensions).result =
      .ok document := by
  obtain ⟨_, -, h⟩ := Plan.result_bind.mp h
  obtain ⟨_, -, h⟩ := Plan.result_bind.mp h
  obtain ⟨_, -, h⟩ := Plan.result_bind.mp h
  obtain ⟨_, -, h⟩ := Plan.result_bind.mp h
  obtain ⟨_, -, h⟩ := Plan.result_bind.mp h
  obtain ⟨_, -, h⟩ := Plan.result_bind.mp h
  obtain ⟨_, hbuild, h⟩ := Plan.result_bind.mp h
  cases h
  exact hbuild

/-- What is resolved depends on what the configuration and the blobs read, and on nothing else. -/
theorem prepare_congr (h : ∀ p ∈ o.inputs, t'.read p = t.read p) (c : Config) :
    prepare (o.sources t' c) = prepare (o.sources t c) := by
  have hblobs : (o.sources t' c).blobs = (o.sources t c).blobs :=
    List.map_congr_left fun p hp => by rw [h p (List.mem_cons_of_mem _ hp)]
  unfold prepare
  rw [hblobs]
  rfl

/-- What a run leaves: the lockfile of its report, and the documents that list it. -/
structure Settled (t : Tree) (o : ResolveOptions) (c : Config) (report : Report) : Prop where
  lockfile : Lockfile.contents (t.read (o.lockfilePath c)) = .ok (Lockfile.render c.workspace report)
  absent : t.lookup (o.lockfilePath c).parts = none ↔ report.dependencies = []
  listed : ∀ path ∈ o.manifestPath c :: o.report.toList, ∃ text,
    t.read path = .ok text.toUTF8 ∧
    Manifest.listed text = some (report.dependencies.map Dependency.fields)

theorem InLine.settled {report : Report} {manifest : String} (h : InLine t o c report manifest)
    (hs : Separate o c)
    (hmanifest : Manifest.listed manifest = some (report.dependencies.map Dependency.fields)) :
    Settled t o c report := by
  have hlock : (o.lockfilePath c).IsPlain := hs.plain _ (by simp [ResolveOptions.outputs])
  refine ⟨h.lockfile, ?_, ?_⟩
  · rw [Lockfile.lookup_eq_none_iff h.rooted hlock h.lockfile, Lockfile.render_eq_none_iff]
  · intro path hpath
    rw [← documents_paths o c report manifest] at hpath
    obtain ⟨⟨path, text⟩, hmem, rfl⟩ := List.mem_map.mp hpath
    refine ⟨text, (h.documents _ hmem).read_eq, ?_⟩
    rcases List.mem_cons.mp hmem with heq | hreport
    · rw [(Prod.mk.inj heq).2]
      exact hmanifest
    · simp only [ResolveOptions.reports, Option.mem_toList, Option.map_eq_some_iff] at hreport
      obtain ⟨_, -, heq⟩ := hreport
      rw [← (Prod.mk.inj heq).2]
      exact Manifest.listed_renderReport report

/-- A run that ends with zero settles all its files, and a run that asks for the same again, in
either mode, ends with zero and changes nothing. -/
theorem run_settles {arguments : List String} {environment : Option String} (ht : t.Rooted)
    (hrequest : Request.ofArguments arguments environment = some (.resolve o))
    (hseparate : ∀ c, o.load services t = .ok c → Separate o c)
    (hexit : (run services t arguments environment).ending.exit = 0) :
    ∃ c product report document,
      o.load services t = .ok c ∧
      (prepare (o.sources t c)).result = .ok (product, report, document) ∧
      Settled (run services t arguments environment).tree o c report ∧
      ∀ writeLocks arguments' environment',
        Request.ofArguments arguments' environment' = some (.resolve { o with writeLocks }) →
        let again := run services (run services t arguments environment).tree arguments' environment'
        again.ending = ⟨0, none⟩ ∧
          again.tree.lookup = (run services t arguments environment).tree.lookup := by
  rw [run_eq hrequest] at hexit ⊢
  obtain ⟨c, hload, hy⟩ := yields_of_exit hexit
  have hs : Separate o c := hseparate c hload
  obtain ⟨product, report, document, manifest, hprepare, hrender, hline, hshows, hinputs⟩ :=
    inLine_of_yields ht hs hy
  have hlisted := Manifest.listed_of_build (prepare_ok hprepare) hrender
  refine ⟨c, product, report, document, hload, hprepare, hline.settled hs hlisted, ?_⟩
  intro writeLocks arguments' environment' hrequest'
  generalize (runRequest services t (.resolve o)).tree = t' at hline hinputs
  -- The second run reads the same inputs, so that it resolves to the same report.
  let o' : ResolveOptions := { o with writeLocks }
  have hload' : o'.load services t' = .ok c := by
    change Config.loadBy services.value o.config (t'.read o.config) = .ok c
    rw [hinputs o.config List.mem_cons_self]
    exact hload
  have hprepare' : (prepare (o'.sources t' c)).result = .ok (product, report, document) := by
    change (prepare (o.sources t' c)).result = _
    rw [prepare_congr hinputs, hprepare]
  have hline' : InLine t' o' c report manifest := ⟨hline.rooted, hline.lockfile, hline.documents⟩
  have hs' : Separate o' c := ⟨hs.plain, hs.outputs, hs.inputs⟩
  obtain ⟨t'', hy', hsame⟩ := hline'.yields hs' hprepare' hrender hshows
  obtain ⟨hending, htree⟩ := runRequest_of_yields hload' hy'
  simp only [run, hrequest']
  exact ⟨hending, by rw [htree, hsame]⟩

/-- A product without declared dependencies, a blob that recommends one, and a stale lockfile. -/
def ordersTree : Tree where
  entries := [
    (["product.yml"], .file
      "product-group: shop\nproduct-name: orders\nproduct-version: 2.0.0\n".toUTF8),
    (["blob.json"], .file
      (Recommendation.render [.ofFields ⟨"shop", "api", "1.2.0", "1.x.x", none, false⟩ rfl]).toUTF8),
    (["product-dependencies.lock"], .file "shop:api (1.0.0, 1.x.x)\r\n".toUTF8)]

def ordersOptions : ResolveOptions where
  config := ⟨0, ["product.yml"]⟩
  discovered := [⟨0, ["blob.json"]⟩]
  writeLocks := true
  report := some ⟨0, ["out", "report.json"]⟩

def ordersWords : List String :=
  ["resolve", "product.yml", "-d", "blob.json", "--report-out", "out/report.json"]

theorem run_settles_orders : ∃ c product report document,
    ordersOptions.load .standard ordersTree = .ok c ∧
    (prepare (ordersOptions.sources ordersTree c)).result = .ok (product, report, document) ∧
    Settled (run .standard ordersTree (ordersWords ++ ["--write-locks"]) none).tree ordersOptions c
      report ∧
    let after := (run .standard ordersTree (ordersWords ++ ["--write-locks"]) none).tree
    let again := run .standard after ordersWords none
    again.ending = ⟨0, none⟩ ∧ again.tree.lookup = after.lookup := by
  have hseparate : ∀ c, ordersOptions.load .standard ordersTree = .ok c →
      Separate ordersOptions c := by
    have hload : (match ordersOptions.load .standard ordersTree with
      | .ok c => decide (Separate ordersOptions c)
      | .error _ => false) = true := by decide +kernel
    intro c h
    rw [h] at hload
    exact of_decide_eq_true hload
  have hrequest : Request.ofArguments (ordersWords ++ ["--write-locks"]) none =
      some (.resolve ordersOptions) := by decide +kernel
  have hexit :
      (run .standard ordersTree (ordersWords ++ ["--write-locks"]) none).ending.exit = 0 := by
    decide +kernel
  obtain ⟨c, product, report, document, hload, hprepare, hsettled, hagain⟩ :=
    run_settles (by decide +kernel) hrequest hseparate hexit
  exact ⟨c, product, report, document, hload, hprepare, hsettled,
    hagain false ordersWords none (by decide +kernel)⟩

end ProductLock.CommandLine
