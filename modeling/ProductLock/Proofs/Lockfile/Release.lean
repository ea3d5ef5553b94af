import ProductLock.Proofs.Lockfile.Gate

namespace ProductLock

/-- A version stands in a dependency as its minimum or its recommendation. -/
def Dependency.Names (d : Dependency) (v : String) : Prop :=
  d.minimum = v ∨ d.recommended = some v

namespace Lockfile

/-- The products of a workspace go from one version to another. -/
structure Release where
  products : List ProductId
  old : String
  new : String
  new_ok : Version.isValid new = true

namespace Release

variable (l : Release) {d : Dependency} {id : ProductId} {v : String}

def before : Workspace :=
  ⟨l.products, some l.old⟩

def after : Workspace :=
  ⟨l.products, some l.new⟩

def version (v : String) : String :=
  if v = l.old then l.new else v

theorem version_ok (h : Version.isValid v = true) : Version.isValid (l.version v) = true := by
  unfold version
  split
  · exact l.new_ok
  · exact h

/-- The minimum and the recommendation of a product of the workspace go along. -/
def dependency (d : Dependency) : Dependency :=
  if d.product ∈ l.products then
    { d with
      minimum := l.version d.minimum
      recommended := d.recommended.map l.version
      minimum_ok := l.version_ok d.minimum_ok
      recommended_ok := by
        intro v hv
        obtain ⟨r, hr, rfl⟩ := Option.map_eq_some_iff.mp hv
        exact l.version_ok (d.recommended_ok r hr) }
  else d

theorem dependency_product (d : Dependency) : (l.dependency d).product = d.product := by
  unfold dependency
  split <;> rfl

def report (r : Report) : Report where
  dependencies := r.dependencies.map l.dependency
  sorted := by
    simpa only [List.pairwise_map, Dependency.le, dependency_product] using r.sorted

/-- A version is written as before, unless it would be hidden now and was not. -/
theorem write_version (hid : id ∈ l.products) (hv : Version.isValid v = true) :
    l.after.write id (l.version v) = l.before.write id v ↔ (v = l.new → l.old = l.new) := by
  -- The old version is hidden before and goes along. Any other one stands there before, and is hidden
  -- after if it is the new one.
  by_cases hold : v = l.old
  · simp [Workspace.write, after, before, version, hid, hold]
  · have hplaceholder := (ne_placeholder hv).symm
    have hbefore : l.before.write id v = v := if_neg fun h => hold (Option.some.inj h.1).symm
    have hafter : l.after.write id (l.version v) = if v = l.new then placeholder else v := by
      simp [Workspace.write, after, version, hid, hold, eq_comm]
    rw [hbefore, hafter]
    by_cases hnew : v = l.new
    · subst hnew
      simp [hplaceholder, Ne.symm hold]
    · simp [hnew]

theorem map_write_version {r : Option String} (hid : id ∈ l.products)
    (hr : ∀ v, r = some v → Version.isValid v = true) :
    (r.map l.version).map (l.after.write id) = r.map (l.before.write id) ↔
      (r = some l.new → l.old = l.new) := by
  cases r with
  | none => simp
  | some v => simpa using l.write_version hid (hr v rfl)

theorem writeFields_dependency (d : Dependency) :
    l.after.writeFields (l.dependency d) = l.before.writeFields d ↔
      (d.product ∈ l.products → d.Names l.new → l.old = l.new) := by
  by_cases hid : d.product ∈ l.products
  · have hminimum := l.write_version hid d.minimum_ok
    have hrecommended := l.map_write_version hid d.recommended_ok
    rw [dependency, if_pos hid]
    simp only [Workspace.writeFields, Dependency.fields, Dependency.Fields.mk.injEq, hminimum,
      hrecommended, true_and, and_true, hid, forall_const, Dependency.Names, or_imp]
  · have hafter : d.product ∉ l.after.products := hid
    have hbefore : d.product ∉ l.before.products := hid
    rw [dependency, if_neg hid, writeFields_of_not_mem hafter, writeFields_of_not_mem hbefore]
    simp [hid]

end Release

/-- A line in which a dependency stands with its own maximum, and with all of its own parts if its
product is not of the workspace. -/
def Spells (w : Workspace) (d : Dependency) (line : String) : Prop :=
  ∃ f, Shaped f ∧ line = recordLine f ∧ f.maximum = d.maximum ∧
    (d.product ∉ w.products → f = d.fields)

theorem spells_writeLine (w : Workspace) (d : Dependency) : Spells w d (w.writeLine d) :=
  ⟨w.writeFields d, shaped_writeFields w d, writeLine_eq w d, rfl, writeFields_of_not_mem⟩

theorem lines_of_render {w : Workspace} {r : Report} {text : String}
    (h : render w r = some text) : (Text.lines text).map Text.Line.body = textLines w r := by
  by_cases hr : r.dependencies = []
  · rw [render_eq_none_iff.mpr hr] at h
    contradiction
  · rw [render_of_ne_nil hr, Option.some.injEq] at h
    rw [← h, Text.lines_join (unbroken_textLines w r)]

/-- A release leaves the lockfile as it is, exactly if no product of the workspace names the new
version already. Whatever a lockfile is written for, it hides no maximum and nothing of a product
of another workspace. -/
theorem Release.keeps_lockfile (l : Release) (r : Report) :
    (render l.after (l.report r) = render l.before r ↔
      ∀ d ∈ r.dependencies, d.product ∈ l.products → d.Names l.new → l.old = l.new) ∧
    ∀ w text, render w r = some text → ∃ lines,
      (Text.lines text).map Text.Line.body = headerBody :: lines ∧
        List.Forall₂ (Spells w) r.dependencies lines := by
  constructor
  · rw [render_eq_iff, Release.report, List.map_map, List.map_inj_left]
    simp only [Function.comp_apply, writeFields_dependency]
  · intro w text h
    refine ⟨r.dependencies.map w.writeLine, lines_of_render h, ?_⟩
    rw [List.forall₂_map_right_iff, List.forall₂_same]
    exact fun d _ => spells_writeLine w d

/-- Two dependencies on one version; the first product is of the workspace. -/
def twoProducts : Report where
  dependencies :=
    [.ofFields ⟨"com.example", "api", "1.4.0", "1.4.0", some "1.4.0", false⟩ rfl,
      .ofFields ⟨"com.example", "cache", "1.4.0", "1.x.x", none, true⟩ rfl]
  sorted := by decide

def minorRelease : Release :=
  ⟨[⟨"com.example", "api", rfl, rfl⟩], "1.4.0", "1.5.0", rfl⟩

example : minorRelease.report twoProducts ≠ twoProducts ∧
    render minorRelease.after (minorRelease.report twoProducts) =
      render minorRelease.before twoProducts ∧
    render minorRelease.before twoProducts = some (header ++
      "com.example:api ($projectVersion, 1.4.0, $projectVersion)\n" ++
      "com.example:cache (1.4.0, 1.x.x) optional\n") := by
  decide +kernel

end Lockfile

end ProductLock
