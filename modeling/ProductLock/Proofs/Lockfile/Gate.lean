import ProductLock.Proofs.Lockfile.Sync

namespace ProductLock.Lockfile

variable {w w' : Workspace} {r s : Report} {d e : Dependency}

/-- A line tells what is written in it. -/
theorem writeLine_eq_iff : w.writeLine d = w'.writeLine e ↔ w.writeFields d = w'.writeFields e := by
  constructor
  · intro h
    have hread := readLine_writeLine w d
    rw [h, readLine_writeLine] at hread
    exact (Option.some.inj hread).symm
  · intro h
    rw [writeLine_eq, writeLine_eq, h]

/-- What is written for a dependency tells it, also where it would be skipped as a comment and where
it hides a version. -/
theorem writeFields_injective (w : Workspace) : Function.Injective w.writeFields := by
  intro d e h
  have hfields := expandFields_writeLine w d
  rw [writeLine_eq_iff.mpr h, expandFields_writeLine] at hfields
  exact Dependency.eq_of_fields (Option.some.inj hfields).symm

/-- A text of rendered lines tells these lines. -/
theorem textLines_injective (h : String.join ((textLines w r).map fun b => b ++ "\n") =
    String.join ((textLines w' s).map fun b => b ++ "\n")) : textLines w r = textLines w' s := by
  rw [← Text.lines_join (unbroken_textLines w r), h, Text.lines_join (unbroken_textLines w' s)]

theorem render_eq_iff_textLines : render w r = render w' s ↔ textLines w r = textLines w' s := by
  by_cases hr : r.dependencies = [] <;> by_cases hs : s.dependencies = []
  · simp only [render, textLines, hr, hs, if_true, List.map_nil]
  · rw [render_of_ne_nil hs, render_eq_none_iff.mpr hr]
    simpa [textLines, hr] using hs
  · rw [render_of_ne_nil hr, render_eq_none_iff.mpr hs]
    simp [textLines, hr, hs]
  · rw [render_of_ne_nil hr, render_of_ne_nil hs, Option.some.injEq]
    exact ⟨textLines_injective, fun h => by rw [h]⟩

/-- Lockfiles are the same exactly if the same is written in their lines, in the same order. -/
theorem render_eq_iff : render w r = render w' s ↔
    r.dependencies.map w.writeFields = s.dependencies.map w'.writeFields := by
  rw [render_eq_iff_textLines, textLines, textLines, List.cons_inj_right,
    ← List.forall₂_eq_eq_eq, ← List.forall₂_eq_eq_eq]
  simp only [List.forall₂_map_left_iff, List.forall₂_map_right_iff, writeLine_eq_iff]

theorem render_injective (w : Workspace) : Function.Injective (render w) := by
  intro r s h
  have hdependencies : r.dependencies = s.dependencies :=
    List.map_injective_iff.mpr (writeFields_injective w) (render_eq_iff.mp h)
  cases r
  cases s
  simp_all

/-- Only the report for which a lockfile was written renders to it, and only for that report does a
check let it pass. -/
theorem gate_exact {path : Path} : (render w r = render w s ↔ r = s) ∧
    ((∃ outcome, compare .check path (render w s) (render w r) = .ok outcome) ↔ r = s) := by
  have hrender : render w r = render w s ↔ r = s := (render_injective w).eq_iff
  refine ⟨hrender, ?_⟩
  simp only [compare_check_ok, exists_and_left, exists_eq, and_true]
  rw [eq_comm, hrender]

end ProductLock.Lockfile
