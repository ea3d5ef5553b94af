import Mathlib.Data.List.Nodup
import ProductLock.Report

namespace ProductLock

theorem Sorting.sort_eq_self {le : α → α → Bool} {xs : List α} (h : xs.Pairwise (le · ·)) :
    sort le xs = xs := by
  induction xs with
  | nil => rfl
  | cons x xs ih =>
    obtain ⟨hx, hxs⟩ := List.pairwise_cons.mp h
    have hcons : sort le (x :: xs) = insert le x (sort le xs) := rfl
    rw [hcons, ih hxs]
    cases xs with
    | nil => rfl
    | cons y ys => exact if_pos (hx y List.mem_cons_self)

/-- An element is put in front of all that have no place before it. -/
theorem Sorting.insert_filter {le : α → α → Bool} {p : α → Bool} {x : α} {ys : List α}
    (h : p x = true → ∀ y ∈ ys, p y = true → le x y = true) :
    (insert le x ys).filter p = (x :: ys).filter p := by
  induction ys with
  | nil => rfl
  | cons y ys ih =>
    have hrest := ih fun hx z hz => h hx z (List.mem_cons_of_mem y hz)
    unfold insert
    split
    · rfl
    · next hle =>
      have hy : p x = true → p y = false := fun hx =>
        Bool.eq_false_iff.mpr fun hy => hle (h hx y List.mem_cons_self hy)
      rw [List.filter_cons, hrest]
      cases hx : p x with
      | false => simp [hx, List.filter_cons]
      | true => simp [hx, hy hx]

/-- Elements that may stand in any order keep the one that they have. -/
theorem Sorting.sort_filter {le : α → α → Bool} {p : α → Bool}
    (h : ∀ x y, p x = true → p y = true → le x y = true) (xs : List α) :
    (sort le xs).filter p = xs.filter p := by
  induction xs with
  | nil => rfl
  | cons x xs ih =>
    have hcons : sort le (x :: xs) = insert le x (sort le xs) := rfl
    rw [hcons, insert_filter fun hx y _ hy => h x y hx hy, List.filter_cons, List.filter_cons, ih]

theorem ProductId.eq_of_compare {a b : ProductId} (h : a.compare b = .eq) : a = b := by
  obtain ⟨hg, hn⟩ := Ordering.then_eq_eq.mp h
  have hgroup := Std.LawfulEqOrd.eq_of_compare hg
  have hname := Std.LawfulEqOrd.eq_of_compare hn
  cases a
  cases b
  simp_all

theorem ProductId.compare_eq_lt {a b : ProductId} : a.compare b = .lt ↔ a.le b = true ∧ a ≠ b := by
  unfold le
  constructor
  · intro h
    refine ⟨by simp [h], ?_⟩
    intro hab
    subst hab
    have := compare_swap a a
    simp [h] at this
  · intro h
    obtain ⟨hle, hne⟩ := h
    cases hc : a.compare b with
    | lt => rfl
    | eq => exact absurd (eq_of_compare hc) hne
    | gt => simp [hc] at hle

namespace Report

theorem mem_of {ds : List Dependency} {d : Dependency} : d ∈ (of ds).dependencies ↔ d ∈ ds :=
  (Sorting.sort_perm Dependency.le ds).mem_iff

/-- The dependencies of a report are already in the order that it asks for. -/
theorem of_dependencies (r : Report) : of r.dependencies = r := by
  obtain ⟨ds, hds⟩ := r
  simp only [of, Sorting.sort_eq_self hds]

theorem ids_of_perm (ds : List Dependency) : (of ds).ids.Perm (ds.map Dependency.product) :=
  (Sorting.sort_perm Dependency.le ds).map _

/-- A report that lists some dependencies, each as often as they do, and those on one product in the
order that they have. -/
structure Arranges (r : Report) (ds : List Dependency) : Prop where
  perm : r.dependencies.Perm ds
  stable : ∀ id, (r.dependencies.filter fun d => d.product = id) = ds.filter fun d => d.product = id

theorem of_arranges (ds : List Dependency) : (of ds).Arranges ds where
  perm := Sorting.sort_perm Dependency.le ds
  stable id := by
    apply Sorting.sort_filter
    intro d e hd he
    have hp : d.product = e.product :=
      (of_decide_eq_true hd).trans (of_decide_eq_true he).symm
    rw [Dependency.le, hp]
    simpa using ProductId.le_total e.product e.product

/-- Where no product occurs twice, the ids strictly increase. -/
theorem ids_strict {r : Report} (h : r.ids.Nodup) : r.ids.Pairwise fun a b => a.compare b = .lt := by
  have hle : r.ids.Pairwise fun a b => a.le b = true := List.pairwise_map.mpr r.sorted
  exact hle.imp₂ (fun a b hab hne => ProductId.compare_eq_lt.mpr ⟨hab, hne⟩) h

/-- Where no product occurs twice, the members of a report determine it. -/
theorem ext_of_mem {r s : Report} (hr : r.ids.Nodup) (hs : s.ids.Nodup)
    (h : ∀ d, d ∈ r.dependencies ↔ d ∈ s.dependencies) : r = s := by
  have hperm : r.dependencies.Perm s.dependencies :=
    (List.perm_ext_iff_of_nodup (List.Nodup.of_map _ hr) (List.Nodup.of_map _ hs)).mpr h
  have hds : r.dependencies = s.dependencies := by
    apply hperm.eq_of_pairwise _ r.sorted s.sorted
    intro a b ha hb hab hba
    have hp : a.product = b.product := by
      by_contra hne
      have hlt := ProductId.compare_eq_lt.mpr ⟨hab, hne⟩
      have hgt := ProductId.compare_eq_lt.mpr ⟨hba, Ne.symm hne⟩
      rw [ProductId.compare_swap, hlt] at hgt
      contradiction
    exact List.inj_on_of_nodup_map hr ha ((h b).mpr hb) hp
  cases r
  cases s
  simp_all

end Report

end ProductLock
