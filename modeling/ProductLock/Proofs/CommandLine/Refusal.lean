import ProductLock.Proofs.CommandLine.Decision
import ProductLock.Proofs.Lockfile.Modes

namespace ProductLock

open Plan ProductLock.Tree

theorem Manifest.write_within {path : Path} {document : List (String × Value)} {paths : List Path}
    (h : path ∈ paths) : (write path document).Within paths := by
  refine (isQuiet_ofResult _).within.bind fun text => ?_
  exact (within_write h).bind fun _ => (isQuiet_note _).within

namespace CommandLine

variable {services : Services} {t : Tree} {o : ResolveOptions} {s : Sources} {c : Config}

theorem finish_within {product : ProductId} {report : Report} {document : List (String × Value)} :
    (finish services o c product report document).Within
      (o.manifestPath c :: o.report.toList) := by
  refine (Manifest.write_within List.mem_cons_self).bind fun _ => ?_
  cases o.report with
  | none => exact (isQuiet_say _).within
  | some path => exact (within_write (by simp)).bind fun _ => (isQuiet_say _).within

/-- A run that only checks writes its documents and nothing else. -/
theorem resolvePlan_within (h : o.writeLocks = false) :
    (resolvePlan services o s).Within (o.manifestPath s.config :: o.report.toList) := by
  have hmode : o.mode = .check := by simp [ResolveOptions.mode, h]
  rw [resolvePlan_eq, hmode]
  refine (isQuiet_prepare s).within.bind fun (product, report, document) => ?_
  refine (isQuiet_ofResult _).within.bind fun existing => ?_
  rw [Lockfile.sync_check]
  refine (isQuiet_ofResult _).within.bind fun outcome => ?_
  exact (isQuiet_tell _ _).within.bind fun _ => finish_within

/-- A failure that is explained and is not one of the system. -/
def IsRefusal (f : Failure) : Prop :=
  f.isExplained = true ∧ ∀ fault, f ≠ .file fault

instance : DecidablePred IsRefusal :=
  fun _ => inferInstanceAs (Decidable (_ ∧ _))

/-- A run that is refused changes nothing. A run that only checks neither makes, changes nor takes
away the lockfile, as long as it is not told to write a document there, and puts nothing in its
place unless a document's path leads through it. -/
theorem run_spares {arguments : List String} {environment : Option String}
    (hrequest : Request.ofArguments arguments environment = some (.resolve o)) :
    (∀ f, o.result services t = .error f → IsRefusal f →
      (run services t arguments environment).tree = t) ∧
    (o.writeLocks = false →
      (∀ f, o.load services t = .error f → (run services t arguments environment).tree = t) ∧
      ∀ c, o.load services t = .ok c →
        (∀ path ∈ o.manifestPath c :: o.report.toList, (o.lockfilePath c).place ≠ path.place) →
        (∀ bytes, (run services t arguments environment).tree.lookup (o.lockfilePath c).place =
            some (.file bytes) ↔ t.lookup (o.lockfilePath c).place = some (.file bytes)) ∧
        ((∀ path ∈ o.manifestPath c :: o.report.toList,
            ¬ path.LeadsThrough (o.lockfilePath c).place) →
          (run services t arguments environment).tree.lookup (o.lockfilePath c).place =
            t.lookup (o.lockfilePath c).place)) := by
  rw [run_eq hrequest]
  refine ⟨?_, ?_⟩
  · intro f hresult hrefusal
    rcases stopped hresult with ⟨htree, -⟩ | ⟨c, d, hd, hcommit⟩
    · exact htree
    · rcases commit_fails hd hcommit with ⟨fault, -, rfl⟩ | ⟨hunexplained, -⟩
      · exact absurd rfl (hrefusal.2 fault)
      · rw [hrefusal.1] at hunexplained
        contradiction
  · intro hcheck
    refine ⟨fun f hload => tree_of_load_error hload, ?_⟩
    intro c hload hother
    have hwithin : (resolvePlan services o (o.sources t c)).Within
        (o.manifestPath c :: o.report.toList) := resolvePlan_within hcheck
    have hkeeps := perform_keeps (t := t) hwithin hother
    rw [tree_of_load hload]
    refine ⟨fun bytes => hkeeps.file_iff, ?_⟩
    intro hthrough
    apply hkeeps.lookup_eq
    intro h
    obtain ⟨path, hpath, hleads⟩ := h
    exact hthrough path hpath hleads

/-- A product without dependencies, and no lockfile. -/
def bareTree : Tree where
  entries := ordersTree.entries.take 1

/-- A check of a stale lockfile is refused; where nothing is resolved it passes, and a manifest is
written but no lockfile. -/
theorem run_spares_orders :
    (run .standard ordersTree ordersWords none).tree = ordersTree ∧
    (run .standard bareTree ["resolve", "product.yml"] none).ending = ⟨0, none⟩ ∧
    (run .standard bareTree ["resolve", "product.yml"] none).tree.lookup ["product-dependencies.lock"] =
      none := by
  refine ⟨?_, by decide +kernel, ?_⟩
  · have hrequest : Request.ofArguments ordersWords none =
        some (.resolve { ordersOptions with writeLocks := false }) := by decide +kernel
    have hstale : ∃ f, ({ ordersOptions with writeLocks := false }).result .standard ordersTree = .error f ∧
        IsRefusal f := by decide +kernel
    obtain ⟨f, hresult, hf⟩ := hstale
    exact (run_spares (t := ordersTree) hrequest).1 f hresult hf
  · let o : ResolveOptions := { config := ⟨0, ["product.yml"]⟩ }
    have hrequest : Request.ofArguments ["resolve", "product.yml"] none = some (.resolve o) := by
      decide +kernel
    have hconfig : ∃ c, o.load .standard bareTree = .ok c ∧
        (o.lockfilePath c).place = ["product-dependencies.lock"] ∧
        ∀ path ∈ o.manifestPath c :: o.report.toList, (o.lockfilePath c).place ≠ path.place ∧
          ¬ path.LeadsThrough (o.lockfilePath c).place := by decide +kernel
    obtain ⟨c, hload, hplace, hpaths⟩ := hconfig
    have hspares := ((run_spares (t := bareTree) hrequest).2 rfl).2 c hload fun path h =>
      (hpaths path h).1
    have hlookup := hspares.2 fun path h => (hpaths path h).2
    rw [hplace] at hlookup
    rw [hlookup]
    decide +kernel

end CommandLine

end ProductLock
