import ProductLock.Dependency.Basic
import ProductLock.Sorting

namespace ProductLock

namespace ProductId

theorem compare_swap (a b : ProductId) : b.compare a = (a.compare b).swap := by
  simp only [compare, Ordering.swap_then]
  rw [← Std.OrientedOrd.eq_swap (a := b.group), ← Std.OrientedOrd.eq_swap (a := b.name)]

theorem le_total (a b : ProductId) : le a b || le b a := by
  rw [le, le, compare_swap a b]
  cases a.compare b <;> rfl

theorem le_iff {a b : ProductId} : le a b = true ↔ Ord.compare a.group b.group = .lt ∨
    (a.group = b.group ∧ Ord.compare a.name b.name ≠ .gt) := by
  simp only [le, compare, bne_iff_ne]
  cases h : Ord.compare a.group b.group with
  | lt => simp
  | gt =>
    have : a.group ≠ b.group := fun e => by simp [e] at h
    simp [this]
  | eq => simp [Std.LawfulEqOrd.eq_of_compare h]

theorem le_trans (a b c : ProductId) (hab : le a b = true) (hbc : le b c = true) :
    le a c = true := by
  rw [le_iff] at *
  rcases hab with hab | ⟨eab, hab⟩ <;> rcases hbc with hbc | ⟨ebc, hbc⟩
  · exact .inl (Std.TransCmp.lt_trans hab hbc)
  · exact .inl (ebc ▸ hab)
  · exact .inl (eab ▸ hbc)
  · refine .inr ⟨eab.trans ebc, ?_⟩
    simp only [ne_eq, ← Ordering.isLE_iff_ne_gt] at *
    exact Std.TransOrd.isLE_trans hab hbc

end ProductId

/-- By the id of the product. -/
def Dependency.le (a b : Dependency) : Bool :=
  a.product.le b.product

theorem Dependency.le_trans (a b c : Dependency) (hab : a.le b = true) (hbc : b.le c = true) :
    a.le c = true :=
  ProductId.le_trans a.product b.product c.product hab hbc

theorem Dependency.le_total (a b : Dependency) : (a.le b || b.le a) = true :=
  ProductId.le_total a.product b.product

/-- The resolved dependencies, in the order of their ids. -/
structure Report where
  dependencies : List Dependency
  sorted : dependencies.Pairwise (Dependency.le · ·)
deriving DecidableEq

namespace Report

def of (ds : List Dependency) : Report where
  dependencies := Sorting.sort Dependency.le ds
  sorted := Sorting.sort_pairwise Dependency.le_trans Dependency.le_total ds

def size (r : Report) : Nat :=
  r.dependencies.length

def ids (r : Report) : List ProductId :=
  r.dependencies.map Dependency.product

end Report

end ProductLock
