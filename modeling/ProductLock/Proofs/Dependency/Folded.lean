import Mathlib.Data.List.Induction
import ProductLock.Proofs.Dependency.Merged
import ProductLock.Proofs.Outcome

namespace ProductLock.Dependency

/-- What dependencies merge to when each is merged into what those before it came to. -/
def Folded : List Dependency → Dependency → Prop
  | [], _ => False
  | d :: ds, m => ds.foldlM merge d = .ok m

theorem folded_single {d m : Dependency} : Folded [d] m ↔ m = d := by
  simp [Folded, pure_ok, eq_comm]

theorem folded_append {cs ds : List Dependency} {m : Dependency} (h : cs ≠ []) :
    Folded (cs ++ ds) m ↔ ∃ e, Folded cs e ∧ ds.foldlM merge e = .ok m := by
  cases cs with
  | nil => exact absurd rfl h
  | cons c cs =>
    simp only [List.cons_append, Folded, List.foldlM_append]
    exact bind_ok

theorem folded_snoc {cs : List Dependency} {d m : Dependency} (h : cs ≠ []) :
    Folded (cs ++ [d]) m ↔ ∃ e, Folded cs e ∧ e.merge d = .ok m := by
  rw [folded_append h]
  simp only [List.foldlM_cons, List.foldlM_nil, bind_pure]

theorem Folded.ne_nil {cs : List Dependency} {m : Dependency} (h : Folded cs m) : cs ≠ [] := by
  cases cs with
  | nil => exact h.elim
  | cons c cs => simp

theorem Folded.unique {cs : List Dependency} {m n : Dependency} (hm : Folded cs m)
    (hn : Folded cs n) : m = n := by
  cases cs with
  | nil => exact hm.elim
  | cons c cs => exact Except.ok.inj (hm.symm.trans hn)

theorem Folded.merged {cs : List Dependency} {m : Dependency} (h : Folded cs m) :
    Merged cs m := by
  induction cs using List.reverseRecOn generalizing m with
  | nil => exact h.elim
  | append_singleton cs d ih =>
    by_cases hcs : cs = []
    · subst hcs
      rw [folded_single.mp h]
      exact .single d
    · obtain ⟨e, he, hm⟩ := (folded_snoc hcs).mp h
      exact (ih he).of_merge (.single d) hm

end ProductLock.Dependency
