import Mathlib.Order.Defs.LinearOrder
import Mathlib.Order.Lattice
import ProductLock.Proofs.Outcome
import ProductLock.Proofs.Version.Grammar
import ProductLock.Version.Order

namespace ProductLock.Version

open Std

instance : TransCmp Component.compare where
  eq_swap {a b} := by
    cases a <;> cases b <;> simp only [Component.compare, Ordering.swap]
    exact OrientedOrd.eq_swap
  isLE_trans {a b c} := by
    cases a <;> cases b <;> cases c <;> simp [Component.compare]
    exact TransOrd.isLE_trans

instance : LawfulEqCmp Component.compare where
  eq_of_compare {a b} h := by
    cases a <;> cases b <;> simp_all [Component.compare]

instance : TransCmp Stage.compare :=
  inferInstanceAs (TransCmp (compareLex (compareOn Stage.rank)
    (compareLex (compareOn Stage.number) (compareOn Stage.hash))))

instance : LawfulEqCmp Stage.compare where
  eq_of_compare {a b} h := by
    simp only [Stage.compare, Ordering.then_eq_eq, LawfulEqOrd.compare_eq_iff_eq] at h
    cases a <;> cases b <;> simp_all [Stage.rank, Stage.number, Stage.hash]

/-- The comparison of one part of two bounds. -/
def compareBy (part : Bound → α) (cmp : α → α → Ordering) (a b : Bound) : Ordering :=
  cmp (part a) (part b)

instance (part : Bound → α) (cmp : α → α → Ordering) [TransCmp cmp] :
    TransCmp (compareBy part cmp) where
  eq_swap {a b} := by
    unfold compareBy
    exact OrientedCmp.eq_swap
  isLE_trans {a b c} hab hbc := by
    unfold compareBy at *
    exact TransCmp.isLE_trans hab hbc

instance : TransCmp Bound.compare :=
  inferInstanceAs (TransCmp (compareLex (compareBy Bound.major Component.compare)
    (compareLex (compareBy Bound.minor Component.compare)
      (compareLex (compareBy Bound.patch Component.compare)
        (compareBy Bound.stage Stage.compare)))))

instance : LawfulEqCmp Bound.compare where
  eq_of_compare {a b} h := by
    simp only [Bound.compare, Ordering.then_eq_eq, LawfulEqCmp.compare_eq_iff_eq] at h
    obtain ⟨hmajor, hminor, hpatch, hstage⟩ := h
    cases a
    cases b
    simp_all

theorem Bound.compare_swap (a b : Bound) : b.compare a = (a.compare b).swap :=
  OrientedCmp.eq_swap

instance : LinearOrder Bound where
  le a b := (a.compare b).isLE = true
  lt a b := a.compare b = .lt
  compare := Bound.compare
  le_refl _ := ReflCmp.isLE_rfl
  le_trans _ _ _ := TransCmp.isLE_trans
  lt_iff_le_not_ge a b := by
    rw [Bound.compare_swap a b]
    cases a.compare b <;> simp
  le_antisymm _ _ hab hba := LawfulEqCmp.eq_of_compare (OrientedCmp.isLE_antisymm hab hba)
  le_total a b := by
    rw [Bound.compare_swap a b]
    cases a.compare b <;> simp
  toDecidableLE a b := inferInstanceAs (Decidable ((a.compare b).isLE = true))
  toDecidableEq := inferInstance
  compare_eq_compareOfLessAndEq a b := by
    unfold compareOfLessAndEq
    cases h : a.compare b with
    | lt => simp [LT.lt, h]
    | eq =>
      obtain rfl := LawfulEqCmp.eq_of_compare h
      simp [LT.lt, h]
    | gt =>
      have hne : a ≠ b := by
        rintro rfl
        simp [ReflCmp.compare_self] at h
      simp [LT.lt, h, hne]

theorem Bound.le_iff {a b : Bound} : a ≤ b ↔ a.compare b ≠ .gt :=
  Ordering.isLE_iff_ne_gt

theorem Bound.lt_iff {a b : Bound} : a < b ↔ a.compare b = .lt :=
  Iff.rfl

/-- The earlier parts of two bounds decide before the later ones. -/
theorem Bound.lt_lex {a b : Bound} : a < b ↔
    a.major.compare b.major = .lt ∨ a.major = b.major ∧
      (a.minor.compare b.minor = .lt ∨ a.minor = b.minor ∧
        (a.patch.compare b.patch = .lt ∨ a.patch = b.patch ∧ a.stage.compare b.stage = .lt)) := by
  simp only [Bound.lt_iff, Bound.compare, Ordering.then_eq_lt, LawfulEqCmp.compare_eq_iff_eq]

theorem Bound.le_lex {a b : Bound} : a ≤ b ↔
    a.major.compare b.major = .lt ∨ a.major = b.major ∧
      (a.minor.compare b.minor = .lt ∨ a.minor = b.minor ∧
        (a.patch.compare b.patch = .lt ∨ a.patch = b.patch ∧
          (a.stage.compare b.stage).isLE = true)) := by
  change (a.compare b).isLE = true ↔ _
  simp only [Bound.compare, Ordering.isLE_then_iff_or, LawfulEqCmp.compare_eq_iff_eq]

/-- The release is the last of the stages. -/
theorem Stage.isLE_release (stage : Stage) : (stage.compare .release).isLE = true := by
  cases stage <;> rfl

theorem Orderable.bound_injective {v w : Orderable} (h : v.bound = w.bound) : v = w := by
  cases v
  cases w
  simpa [Orderable.bound] using h

theorem of_withinLimit {m n : Nat} (h : withinLimit n = .ok m) : m = n := by
  unfold withinLimit at h
  split at h
  · cases h
    rfl
  · contradiction

theorem Stage.of_checked {s t : Stage} (h : s.checked = .ok t) : t = s := by
  simp only [Stage.checked, bind_ok, pure_ok, Except.ok.injEq] at h
  obtain ⟨_, _, rfl⟩ := h
  rfl

theorem Orderable.of_checked {v w : Orderable} (h : v.checked = .ok w) : w = v := by
  simp only [Orderable.checked, bind_ok, pure_ok, Except.ok.injEq] at h
  obtain ⟨major, h₁, minor, h₂, patch, h₃, stage, h₄, rfl⟩ := h
  rw [of_withinLimit h₁, of_withinLimit h₂, of_withinLimit h₃, Stage.of_checked h₄]

theorem Component.of_checked {k l : Component} (h : k.checked = .ok l) : l = k := by
  cases k with
  | any => cases h; rfl
  | number n =>
    simp only [Component.checked, map_ok] at h
    obtain ⟨m, hm, rfl⟩ := h
    rw [of_withinLimit hm]

theorem Matcher.of_checked {m l : Matcher} (h : m.checked = .ok l) : l = m := by
  simp only [Matcher.checked, bind_ok, pure_ok, Except.ok.injEq] at h
  obtain ⟨major, h₁, minor, h₂, patch, h₃, rfl⟩ := h
  rw [Component.of_checked h₁, Component.of_checked h₂, Component.of_checked h₃]

theorem orderable_of_key {s : String} {v : Orderable} (h : key s = .ok v) :
    orderable? s = some v := by
  unfold key at h
  split at h
  · next w hw => rw [hw, Orderable.of_checked h]
  · contradiction

/-- A bound was read from an orderable version or, failing that, from a matcher. -/
theorem of_bound {s : String} {b : Bound} (h : bound s = .ok b) :
    (∃ v, orderable? s = some v ∧ b = v.bound) ∨
      ∃ m, orderable? s = none ∧ matcher? s = some m ∧ b = m.bound := by
  unfold bound at h
  split at h
  · next v hv =>
    obtain ⟨w, hw, rfl⟩ := map_ok.mp h
    exact .inl ⟨v, hv, by rw [Orderable.of_checked hw]⟩
  · next m hv hm =>
    obtain ⟨l, hl, rfl⟩ := map_ok.mp h
    exact .inr ⟨m, hv, hm, by rw [Matcher.of_checked hl]⟩
  · contradiction

/-- A matcher without wildcards is spelled like the release it stands for. -/
theorem text_of_same_bound {v : Orderable} {m : Matcher} (h : v.bound = m.bound) :
    v.text = m.text := by
  obtain ⟨major, minor, patch, stage⟩ := v
  obtain ⟨a, b, c⟩ := m
  simp only [Orderable.bound, Matcher.bound, Bound.mk.injEq] at h
  obtain ⟨rfl, rfl, rfl, rfl⟩ := h
  simp [Orderable.text, Matcher.text, Component.write, Stage.write]

/-- Different texts are different bounds. -/
theorem bound_injective {s t : String} {b : Bound} (hs : bound s = .ok b) (ht : bound t = .ok b) :
    s = t := by
  rcases of_bound hs with ⟨v, hv, rfl⟩ | ⟨m, hv, hm, rfl⟩ <;>
    rcases of_bound ht with ⟨w, hw, he⟩ | ⟨l, hw, hl, he⟩
  · rw [text_of_orderable hv, text_of_orderable hw, Orderable.bound_injective he]
  · rw [text_of_orderable hv, text_of_matcher hl, text_of_same_bound he]
  · rw [text_of_orderable hw, text_of_matcher hm, text_of_same_bound he.symm]
  · have hml : m = l := by
      cases m
      cases l
      simpa [Matcher.bound] using he
    rw [text_of_matcher hm, text_of_matcher hl, hml]

/-- The place of an orderable version among the bounds, if it can be computed with. -/
def level (s : String) : Option Bound :=
  (key s).toOption.map Orderable.bound

/-- The bound that a maximum sets, if it can be computed with. -/
def ceiling (s : String) : Option Bound :=
  (bound s).toOption

theorem level_eq_some {s : String} {b : Bound} :
    level s = some b ↔ ∃ v, key s = .ok v ∧ v.bound = b := by
  simp only [level, Option.map_eq_some_iff, toOption_eq_some]

theorem ceiling_eq_some {s : String} {b : Bound} : ceiling s = some b ↔ bound s = .ok b :=
  toOption_eq_some

theorem ceiling_of_level {s : String} {b : Bound} (h : level s = some b) :
    ceiling s = some b := by
  obtain ⟨v, hv, rfl⟩ := level_eq_some.mp h
  have ho := orderable_of_key hv
  rw [key, ho] at hv
  rw [ceiling_eq_some, bound, ho]
  exact map_ok.mpr ⟨v, hv, rfl⟩

theorem ceiling_injective {s t : String} {b : Bound} (hs : ceiling s = some b)
    (ht : ceiling t = some b) : s = t :=
  bound_injective (ceiling_eq_some.mp hs) (ceiling_eq_some.mp ht)

theorem level_injective {s t : String} {b : Bound} (hs : level s = some b)
    (ht : level t = some b) : s = t :=
  ceiling_injective (ceiling_of_level hs) (ceiling_of_level ht)

theorem isOrderable_of_level {s : String} {b : Bound} (h : level s = some b) :
    isOrderable s = true := by
  obtain ⟨v, hv, _⟩ := level_eq_some.mp h
  exact Option.isSome_of_eq_some (orderable_of_key hv)

theorem isOrderable_or_isMatcher_of_ceiling {s : String} {b : Bound} (h : ceiling s = some b) :
    isOrderable s = true ∨ isMatcher s = true := by
  rcases of_bound (ceiling_eq_some.mp h) with ⟨v, hv, _⟩ | ⟨m, _, hm, _⟩
  · exact .inl (Option.isSome_of_eq_some hv)
  · exact .inr (Option.isSome_of_eq_some hm)

theorem compareOrderable_ok {s t : String} {o : Ordering} : compareOrderable s t = .ok o ↔
    ∃ a b, level s = some a ∧ level t = some b ∧ a.compare b = o := by
  simp only [compareOrderable, bind_ok, pure_ok, Except.ok.injEq, level_eq_some]
  constructor
  · intro hx
    obtain ⟨v, hv, w, hw, rfl⟩ := hx
    exact ⟨v.bound, w.bound, ⟨v, hv, rfl⟩, ⟨w, hw, rfl⟩, rfl⟩
  · intro hx
    obtain ⟨_, _, ⟨v, hv, rfl⟩, ⟨w, hw, rfl⟩, rfl⟩ := hx
    exact ⟨v, hv, w, hw, rfl⟩

theorem compareMaximum_ok {s t : String} {o : Ordering} : compareMaximum s t = .ok o ↔
    ∃ a b, ceiling s = some a ∧ ceiling t = some b ∧ a.compare b = o := by
  simp only [compareMaximum, bind_ok, pure_ok, Except.ok.injEq, ceiling_eq_some]
  constructor
  · intro hx
    obtain ⟨a, ha, b, hb, rfl⟩ := hx
    exact ⟨a, b, ha, hb, rfl⟩
  · intro hx
    obtain ⟨a, b, ha, hb, rfl⟩ := hx
    exact ⟨a, ha, b, hb, rfl⟩

theorem withinMaximum_ok {s t : String} {q : Bool} : withinMaximum s t = .ok q ↔
    ∃ a b, level s = some a ∧ ceiling t = some b ∧ decide (a ≤ b) = q := by
  have hd (a b : Bound) : decide (a ≤ b) = (a.compare b != .gt) := by
    rw [Bool.eq_iff_iff, decide_eq_true_iff, Bound.le_iff, bne_iff_ne]
  simp only [withinMaximum, bind_ok, pure_ok, Except.ok.injEq, level_eq_some, ceiling_eq_some, hd]
  constructor
  · intro hx
    obtain ⟨v, hv, b, hb, rfl⟩ := hx
    exact ⟨v.bound, b, ⟨v, hv, rfl⟩, hb, rfl⟩
  · intro hx
    obtain ⟨_, b, ⟨v, hv, rfl⟩, hb, rfl⟩ := hx
    exact ⟨v, hv, b, hb, rfl⟩

end ProductLock.Version
