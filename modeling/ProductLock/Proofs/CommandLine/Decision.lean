import ProductLock.Proofs.CommandLine.Rerun
import ProductLock.Proofs.Tree.Changes

namespace ProductLock

open Plan ProductLock.Tree

variable {t t' : Tree} {path : Path} {f : Failure}

namespace Manifest

variable {document : List (String × Value)}

theorem write_fails (h : Fails t (write path document) t' f) :
    render document = .error f ∨ ∃ fault, f = .file fault ∧
      (fault.IsSystem ∨ path.isNamable = false) := by
  rcases fails_bind.mp h with hrender | ⟨_, text, _, h⟩
  · exact .inl ((isQuiet_ofResult _).fails.mp hrender).2
  · obtain ⟨fault, hfault, rfl⟩ := fails_noted.mp h
    exact .inr ⟨fault, rfl, replace_fault hfault⟩

end Manifest

namespace Lockfile

/-- A lockfile that was brought in line only fails to change by a fault of the system, or because it
has to change at a path without a name. -/
theorem enact_fails {text : String} {outcome : Outcome} (h : Fails t (enact path text outcome) t' f) :
    ∃ fault, f = .file fault ∧
      (fault.IsSystem ∨ outcome.complaint ≠ none ∧ path.isNamable = false) := by
  cases outcome with
  | unchanged | absent => cases ((isQuiet_pure _).fails.mp h).2
  | created | updated | deleted =>
    obtain ⟨fault, hstep, rfl⟩ := fails_noted.mp h
    exact ⟨fault, rfl, (Action.perform_fault hstep).imp_right fun hname => ⟨nofun, hname.1⟩⟩

end Lockfile

namespace CommandLine

variable {services : Services} {o : ResolveOptions} {s : Sources} {c : Config}

/-- What a run has decided before it touches a file. -/
structure Decision where
  product : ProductId
  report : Report
  document : List (String × Value)
  existing : Option String
  outcome : Lockfile.Outcome

variable {d : Decision}

/-- The part of a run that comes before it touches a file. -/
def weigh (o : ResolveOptions) (s : Sources) : Plan Decision := do
  let (product, report, document) ← prepare s
  let existing ← Plan.ofResult (Lockfile.contents s.existing)
  let outcome ← Plan.ofResult (Lockfile.compare o.mode s.lockfile existing
    (Lockfile.render s.config.workspace report))
  return { product, report, document, existing, outcome }

theorem isQuiet_weigh (o : ResolveOptions) (s : Sources) : (weigh o s).IsQuiet := by
  refine (isQuiet_prepare s).bind fun _ => (isQuiet_ofResult _).bind fun _ => ?_
  exact (isQuiet_ofResult _).bind fun _ => isQuiet_pure _

theorem weigh_ok (h : (weigh o (o.sources t c)).result = .ok d) :
    (prepare (o.sources t c)).result = .ok (d.product, d.report, d.document) ∧
    Lockfile.contents (t.read (o.lockfilePath c)) = .ok d.existing ∧
    Lockfile.compare o.mode (o.lockfilePath c) d.existing (Lockfile.render c.workspace d.report) =
      .ok d.outcome := by
  obtain ⟨⟨product, report, document⟩, hprepare, h⟩ := Plan.result_bind.mp h
  obtain ⟨existing, hexisting, h⟩ := Plan.result_bind.mp h
  obtain ⟨outcome, houtcome, h⟩ := Plan.result_bind.mp h
  cases h
  exact ⟨hprepare, hexisting, houtcome⟩

/-- The part of a run that carries out what was decided. -/
def commit (services : Services) (o : ResolveOptions) (c : Config) (d : Decision) : Plan Unit := do
  Lockfile.enact (o.lockfilePath c) ((Lockfile.render c.workspace d.report).getD "") d.outcome
  tell services (o.lockfilePath c) d.outcome
  finish services o c d.product d.report d.document

theorem resolvePlan_eq_weigh : resolvePlan services o (o.sources t c) = (do
    let d ← weigh o (o.sources t c)
    commit services o c d) := by
  simp only [resolvePlan_eq, weigh, commit, Lockfile.sync, bind_assoc, pure_bind]
  rfl

/-- A run has found a configuration, and decided all before it touched a file. -/
structure Decides (services : Services) (t : Tree) (o : ResolveOptions) (c : Config)
    (d : Decision) : Prop where
  load : o.load services t = .ok c
  weigh : (weigh o (o.sources t c)).result = .ok d

theorem Decides.unique {c' : Config} {d' : Decision} (h : Decides services t o c d)
    (h' : Decides services t o c' d') : c = c' ∧ d = d' := by
  obtain rfl := Except.ok.inj (h.load.symm.trans h'.load)
  exact ⟨rfl, Except.ok.inj (h.weigh.symm.trans h'.weigh)⟩

/-- The lines that a run prints. -/
def ResolveOptions.lines (o : ResolveOptions) (c : Config) (d : Decision) : List String :=
  closingLine d.product d.report (o.manifestPath c) ::
    (outcomeLine (o.lockfilePath c) d.outcome).toList

/-- What can keep a run from its end once all is decided, though the system carries out all that it
is asked for. -/
inductive Hindered (services : Services) (o : ResolveOptions) (c : Config) (d : Decision) : Prop
  | lockfile (h : d.outcome.complaint ≠ none) (hname : (o.lockfilePath c).isNamable = false)
  | line (line : String) (h : line ∈ o.lines c d) (hmarks : ¬ services.Shows line)
  | extension (e : String × Value) (h : e ∈ c.extensions) (hform : Json.fault? e.2 ≠ none)
  | document (path : Path) (h : path ∈ o.manifestPath c :: o.report.toList)
      (hname : path.isNamable = false)

theorem tell_fails (h : Fails t (tell services path d.outcome) t' f) :
    f = .marks ∧ ∃ line, outcomeLine path d.outcome = some line ∧ ¬ services.Shows line := by
  unfold tell at h
  split at h
  · next line hline =>
    obtain ⟨hf, hmarks⟩ := result_say_error.mp ((isQuiet_say _).fails.mp h).2
    exact ⟨hf, line, hline, hmarks⟩
  · cases ((isQuiet_pure _).fails.mp h).2

theorem finish_fails (h : Fails t (finish services o c d.product d.report d.document) t' f) :
    Manifest.render d.document = .error f ∨
    (∃ fault, f = .file fault ∧ (fault.IsSystem ∨
      ∃ path ∈ o.manifestPath c :: o.report.toList, path.isNamable = false)) ∨
    f = .marks ∧ ¬ services.Shows (closingLine d.product d.report (o.manifestPath c)) := by
  have hsay {t₁ : Tree} (hsay : Fails t₁
      (say services (closingLine d.product d.report (o.manifestPath c))) t' f) :
      f = .marks ∧ ¬ services.Shows (closingLine d.product d.report (o.manifestPath c)) :=
    result_say_error.mp ((isQuiet_say _).fails.mp hsay).2
  rcases fails_bind.mp h with hwrite | ⟨t₁, _, _, h⟩
  · rcases Manifest.write_fails hwrite with hrender | ⟨fault, hf, hfault⟩
    · exact .inl hrender
    · exact .inr (.inl ⟨fault, hf, hfault.imp_right fun hname => ⟨_, List.mem_cons_self, hname⟩⟩)
  · cases hpath : o.report with
    | none =>
      rw [hpath] at h
      exact .inr (.inr (hsay h))
    | some path =>
      rw [hpath] at h
      rcases fails_bind.mp h with hreport | ⟨t₂, _, _, h⟩
      · obtain ⟨fault, hfault, rfl⟩ := fails_act.mp hreport
        exact .inr (.inl ⟨fault, rfl, (replace_fault hfault).imp_right fun hname =>
          ⟨path, by simp, hname⟩⟩)
      · exact .inr (.inr (hsay h))

/-- Once all is decided, a run fails by a fault of the system, or because it is hindered, and then
with a failure that it does not explain. -/
theorem commit_fails (hd : Decides services t o c d) {t₀ : Tree}
    (h : Fails t₀ (commit services o c d) t' f) :
    (∃ fault, fault.IsSystem ∧ f = .file fault) ∨
      f.isExplained = false ∧ Hindered services o c d := by
  have hfile {fault : FileFault} (hfault : ¬ fault.IsSystem) :
      (Failure.file fault).isExplained = false := by
    rw [not_not.mp hfault]
    rfl
  rcases fails_bind.mp h with henact | ⟨_, _, _, h⟩
  · obtain ⟨fault, rfl, hfault⟩ := Lockfile.enact_fails henact
    by_cases hsystem : fault.IsSystem
    · exact .inl ⟨fault, hsystem, rfl⟩
    · obtain ⟨hcomplaint, hname⟩ := hfault.resolve_left hsystem
      exact .inr ⟨hfile hsystem, .lockfile hcomplaint hname⟩
  · rcases fails_bind.mp h with htell | ⟨_, _, _, hfinish⟩
    · obtain ⟨rfl, line, hline, hmarks⟩ := tell_fails htell
      exact .inr ⟨rfl, .line line (by simp [ResolveOptions.lines, hline]) hmarks⟩
    · rcases finish_fails hfinish with hrender | ⟨fault, rfl, hfault⟩ | ⟨rfl, hmarks⟩
      · refine .inr ⟨Json.fault?_unexplained _ (Manifest.render_fault.mp hrender), ?_⟩
        obtain ⟨e, he, hform⟩ : ∃ e ∈ c.extensions, Json.fault? e.2 ≠ none := by
          by_contra hnone
          have hforms : ∀ e ∈ c.extensions, Json.fault? e.2 = none := by simpa using hnone
          obtain ⟨text, htext⟩ :=
            (Manifest.exists_render_iff (prepare_ok (weigh_ok hd.weigh).1)).mpr hforms
          cases hrender.symm.trans htext
        exact .extension e he hform
      · by_cases hsystem : fault.IsSystem
        · exact .inl ⟨fault, hsystem, rfl⟩
        · obtain ⟨path, hpath, hname⟩ := hfault.resolve_left hsystem
          exact .inr ⟨hfile hsystem, .document path hpath hname⟩
      · exact .inr ⟨rfl, .line _ List.mem_cons_self hmarks⟩

/-- Where the configuration cannot be read nothing happens. -/
theorem tree_of_load_error (h : o.load services t = .error f) :
    (runRequest services t (.resolve o)).tree = t := by
  rw [tree_eq, plan_failed h]
  rfl

theorem tree_of_load (h : o.load services t = .ok c) :
    (runRequest services t (.resolve o)).tree =
      (t.perform (resolvePlan services o (o.sources t c))).tree := by
  rw [tree_eq, plan_resolve h]

/-- A run that fails has changed nothing, or it had decided all and failed to carry it out. -/
theorem stopped (h : o.result services t = .error f) :
    (runRequest services t (.resolve o)).tree = t ∧ (∀ c d, ¬ Decides services t o c d) ∨
    ∃ c d, Decides services t o c d ∧
      Fails t (commit services o c d) (runRequest services t (.resolve o)).tree f := by
  cases hload : o.load services t with
  | error g =>
    refine .inl ⟨tree_of_load_error hload, ?_⟩
    intro c d hd
    cases hload.symm.trans hd.load
  | ok c =>
    rw [ResolveOptions.result, plan_resolve hload] at h
    rw [tree_of_load hload]
    have hfails := fails_of_perform h
    generalize (t.perform (resolvePlan services o (o.sources t c))).tree = after at hfails
    rw [resolvePlan_eq_weigh] at hfails
    rcases fails_bind.mp hfails with hweigh | ⟨_, d, hweigh, hcommit⟩
    · obtain ⟨rfl, hstopped⟩ := (isQuiet_weigh _ _).fails.mp hweigh
      refine .inl ⟨rfl, ?_⟩
      intro c' d hd
      obtain rfl := Except.ok.inj (hload.symm.trans hd.load)
      cases hstopped.symm.trans hd.weigh
    · obtain ⟨rfl, hdecided⟩ := (isQuiet_weigh _ _).yields.mp hweigh
      exact .inr ⟨c, d, ⟨hload, hdecided⟩, hcommit⟩

end CommandLine

end ProductLock
