import ProductLock.CommandLine.Run
import ProductLock.Proofs.Lockfile.Sync
import ProductLock.Proofs.Tree.Files

namespace ProductLock

open Plan ProductLock.Tree

namespace Recommendation

theorem isQuiet_announce (source : Option String) (fs : List Dependency.Fields) :
    (announce source fs).IsQuiet := by
  induction fs with
  | nil => exact isQuiet_pure _
  | cons f fs ih =>
    refine (isQuiet_ofResult _).bind fun d => (isQuiet_note _).bind fun _ => ih.bind fun _ => ?_
    exact isQuiet_pure _

theorem isQuiet_parse (source : Option String) (blob : Blob) : (parse source blob).IsQuiet := by
  refine (isQuiet_ofResult _).bind fun r => ?_
  cases r with
  | error fault => exact (isQuiet_note _).bind fun _ => isQuiet_pure _
  | ok fields => exact isQuiet_announce source fields

theorem isQuiet_discover (blobs : List (String × Option Blob)) : (discover blobs).IsQuiet := by
  induction blobs with
  | nil => exact isQuiet_pure _
  | cons b blobs ih =>
    obtain ⟨source, blob⟩ := b
    cases blob with
    | none => exact (isQuiet_note _).bind fun _ => ih
    | some blob =>
      exact (isQuiet_parse _ _).bind fun _ => ih.bind fun _ => isQuiet_pure _

theorem isQuiet_ofFiles (files : List (Path × Except FileFault ByteArray)) :
    (ofFiles files).IsQuiet := by
  induction files with
  | nil => exact isQuiet_pure _
  | cons f files ih =>
    obtain ⟨path, result⟩ := f
    cases result with
    | error fault => exact (isQuiet_note _).bind fun _ => ih
    | ok bytes =>
      unfold ofFiles
      split
      · exact isQuiet_fail _
      · exact ih.bind fun _ => isQuiet_pure _

end Recommendation

namespace Manifest

theorem isQuiet_build (product : ProductId) (type version : String) (r : Report)
    (extensions : List (String × Value)) :
    (build product type version r extensions).IsQuiet := by
  have hrest (u : Unit) : (do
      let type ← Plan.ofResult (ProductType.ofName type)
      return header product type version r ++ extras extensions : Plan _).IsQuiet :=
    (isQuiet_ofResult _).bind fun _ => isQuiet_pure _
  unfold build
  split
  · exact (isQuiet_fail _).bind hrest
  · split
    · exact (isQuiet_fail _).bind hrest
    · split
      · exact (isQuiet_note _).bind hrest
      · exact hrest ()

/-- A manifest is written whole, or not at all when a value in it has no form. -/
theorem write_yields {t t' : Tree} {path : Path} {document : List (String × Value)} {u : Unit} :
    Yields t (write path document) t' u ↔
      ∃ text, render document = .ok text ∧ t.replace path text.toUTF8 = (t', .ok ()) := by
  unfold write
  simp only [yields_bind, yields_ofResult]
  constructor
  · intro h
    obtain ⟨t₁, text, ⟨rfl, htext⟩, h⟩ := h
    exact ⟨text, htext, Lockfile.yields_write.mp (yields_bind.mpr h)⟩
  · intro h
    obtain ⟨text, htext, h⟩ := h
    exact ⟨t, text, ⟨rfl, htext⟩, yields_bind.mp (Lockfile.yields_write.mpr h)⟩

end Manifest

namespace CommandLine

variable {services : Services} {t t' : Tree} {o : ResolveOptions} {s : Sources} {c : Config}

theorem isQuiet_noteAll (ns : List Note) : (noteAll ns).IsQuiet := by
  intro action h
  obtain ⟨n, _, rfl⟩ := List.mem_map.mp h
  trivial

/-- A line whose marks make sense. -/
def Services.Shows (services : Services) (line : String) : Prop :=
  services.unmarked line ≠ none

theorem isQuiet_say (line : String) : (say services line).IsQuiet := by
  refine (isQuiet_ofResult _).bind fun shown => ?_
  intro action h
  rw [List.mem_singleton.mp h]
  trivial

theorem result_say {line : String} {u : Unit} :
    (say services line).result = .ok u ↔ services.Shows line := by
  unfold say Services.Shows Services.unmark
  cases services.unmarked line with
  | none => exact iff_of_false nofun (not_not_intro rfl)
  | some shown => exact iff_of_true rfl nofun

theorem result_say_error {line : String} {f : Failure} :
    (say services line).result = .error f ↔ f = .marks ∧ ¬ services.Shows line := by
  unfold say Services.Shows Services.unmark
  cases services.unmarked line with
  | none =>
    rw [and_iff_left (not_not_intro rfl)]
    exact ⟨fun h => (Except.error.inj h).symm, fun h => h ▸ rfl⟩
  | some shown => exact iff_of_false nofun fun h => h.2 nofun

theorem yields_say {line : String} {u : Unit} :
    Yields t (say services line) t' u ↔ t' = t ∧ services.Shows line := by
  rw [(isQuiet_say line).yields, result_say]

theorem isQuiet_prepare (s : Sources) : (prepare s).IsQuiet := by
  refine (isQuiet_ofResult _).bind fun _ => (isQuiet_ofResult _).bind fun _ => ?_
  refine (Recommendation.isQuiet_ofFiles _).bind fun _ => ?_
  refine (Recommendation.isQuiet_discover _).bind fun _ => (isQuiet_ofResult _).bind fun _ => ?_
  refine (isQuiet_noteAll _).bind fun _ => ?_
  exact (Manifest.isQuiet_build _ _ _ _ _).bind fun _ => isQuiet_pure _

/-- The report by itself, where it is asked for. -/
def ResolveOptions.reports (o : ResolveOptions) (report : Report) : List (Path × String) :=
  (o.report.map fun path => (path, Manifest.renderReport report)).toList

/-- The files that come after the lockfile, with their contents. -/
def ResolveOptions.documents (o : ResolveOptions) (c : Config) (report : Report)
    (manifest : String) : List (Path × String) :=
  (o.manifest.getD c.manifest, manifest) :: o.reports report

def ResolveOptions.mode (o : ResolveOptions) : Lockfile.Mode :=
  if o.writeLocks then .write else .check

/-- What a run does once the lockfile is in line. -/
def finish (services : Services) (o : ResolveOptions) (c : Config) (product : ProductId)
    (report : Report) (manifest : List (String × Value)) : Plan Unit := do
  let output := o.manifest.getD c.manifest
  Manifest.write output manifest
  if let some path := o.report then
    Plan.act (.write path (Manifest.renderReport report))
  say services (closingLine product report output)

theorem finish_yields {product : ProductId} {report : Report} {document : List (String × Value)} :
    Yields t (finish services o c product report document) t' () ↔
      services.Shows (closingLine product report (o.manifest.getD c.manifest)) ∧
      ∃ text, Manifest.render document = .ok text ∧
        t.Carries (writes (o.documents c report text)) t' := by
  have hreport (t₁ : Tree) (line : String) : Yields t₁ (do
      if let some path := o.report then
        Plan.act (.write path (Manifest.renderReport report))
      say services line) t' () ↔
        services.Shows line ∧ t₁.Carries (writes (o.reports report)) t' := by
    cases hpath : o.report with
    | none => simp [yields_say, ResolveOptions.reports, hpath, writes_nil, and_comm]
    | some path =>
      simp [yields_bind, yields_act, yields_say, ResolveOptions.reports, hpath, writes_cons,
        writes_nil, Action.perform, and_comm]
  unfold finish
  simp only [yields_bind, Manifest.write_yields, hreport, ResolveOptions.documents, writes_cons]
  constructor
  · intro h
    obtain ⟨t₁, _, ⟨text, htext, hmanifest⟩, hshows, hreports⟩ := h
    exact ⟨hshows, text, htext, t₁, hmanifest, hreports⟩
  · intro h
    obtain ⟨hshows, text, htext, t₁, hmanifest, hreports⟩ := h
    exact ⟨t₁, (), ⟨text, htext, hmanifest⟩, hshows, hreports⟩

/-- Says what became of the lockfile, where it changed. -/
def tell (services : Services) (path : Path) (outcome : Lockfile.Outcome) : Plan Unit :=
  match outcomeLine path outcome with
  | some line => say services line
  | none => pure ()

/-- What is to be said of the lockfile can be shown. -/
def Services.Tells (services : Services) (path : Path) (outcome : Lockfile.Outcome) : Prop :=
  ∀ line, outcomeLine path outcome = some line → services.Shows line

theorem isQuiet_tell (path : Path) (outcome : Lockfile.Outcome) :
    (tell services path outcome).IsQuiet := by
  unfold tell
  split
  · exact isQuiet_say _
  · exact isQuiet_pure _

theorem result_tell {path : Path} {outcome : Lockfile.Outcome} {u : Unit} :
    (tell services path outcome).result = .ok u ↔ services.Tells path outcome := by
  unfold tell Services.Tells
  cases outcomeLine path outcome with
  | none => exact iff_of_true rfl nofun
  | some line => simp [result_say]

theorem yields_tell {path : Path} {outcome : Lockfile.Outcome} {u : Unit} :
    Yields t (tell services path outcome) t' u ↔ t' = t ∧ services.Tells path outcome := by
  rw [(isQuiet_tell path outcome).yields, result_tell]

theorem resolvePlan_eq : resolvePlan services o s = (do
    let (product, report, document) ← prepare s
    let existing ← Plan.ofResult (Lockfile.contents s.existing)
    let outcome ← Lockfile.sync o.mode s.lockfile existing
      (Lockfile.render s.config.workspace report)
    tell services s.lockfile outcome
    finish services o s.config product report document) := by
  refine congrArg (prepare s >>= ·) (funext fun prepared => ?_)
  obtain ⟨product, report, document⟩ := prepared
  refine congrArg (Plan.ofResult _ >>= ·) (funext fun existing => ?_)
  refine congrArg (Lockfile.sync _ _ _ _ >>= ·) (funext fun outcome => ?_)
  unfold tell
  cases outcomeLine s.lockfile outcome <;> rfl

theorem resolvePlan_yields : Yields t (resolvePlan services o s) t' () ↔
    ∃ product report document existing outcome text t₁,
      (prepare s).result = .ok (product, report, document) ∧
      Lockfile.contents s.existing = .ok existing ∧
      Yields t (Lockfile.sync o.mode s.lockfile existing (Lockfile.render s.config.workspace report))
        t₁ outcome ∧
      services.Tells s.lockfile outcome ∧
      services.Shows (closingLine product report (o.manifest.getD s.config.manifest)) ∧
      Manifest.render document = .ok text ∧
      t₁.Carries (writes (o.documents s.config report text)) t' := by
  rw [resolvePlan_eq, yields_bind]
  simp only [(isQuiet_prepare s).yields]
  constructor
  · intro h
    obtain ⟨_, ⟨product, report, document⟩, ⟨rfl, hprepare⟩, h⟩ := h
    simp only [yields_bind, yields_ofResult, yields_tell, finish_yields] at h
    obtain ⟨_, existing, ⟨rfl, hexisting⟩, t₁, outcome, hsync, _, _, ⟨rfl, htells⟩, hshows, text,
      htext, hwrites⟩ := h
    exact ⟨product, report, document, existing, outcome, text, _, hprepare, hexisting, hsync,
      htells, hshows, htext, hwrites⟩
  · intro h
    obtain ⟨product, report, document, existing, outcome, text, t₁, hprepare, hexisting, hsync,
      htells, hshows, htext, hwrites⟩ := h
    refine ⟨t, (product, report, document), ⟨rfl, hprepare⟩, ?_⟩
    simp only [yields_bind, yields_ofResult, yields_tell, finish_yields]
    exact ⟨t, existing, ⟨rfl, hexisting⟩, t₁, outcome, hsync, t₁, (), ⟨rfl, htells⟩, hshows, text,
      htext, hwrites⟩

end CommandLine

end ProductLock
