import ProductLock.Proofs.Version.Limit

namespace ProductLock.Version

/-- A text that can stand for a maximum, with numbers that can be computed with. -/
structure Comparable (s : String) : Prop where
  form : isOrderable s = true ∨ isMatcher s = true
  fits : Version.fits s = true

theorem Comparable.exists_ceiling {s : String} (h : Comparable s) : ∃ b, ceiling s = some b :=
  Version.exists_ceiling h.form h.fits

/-- Of two maximums one is looser, or they are spelled alike; exchanging them exchanges the answer. -/
theorem Comparable.trichotomy {s t : String} (hs : Comparable s) (ht : Comparable t) :
    ∃ o, compareMaximum s t = .ok o ∧ compareMaximum t s = .ok o.swap ∧ (o = .eq ↔ s = t) := by
  obtain ⟨a, ha⟩ := hs.exists_ceiling
  obtain ⟨b, hb⟩ := ht.exists_ceiling
  refine ⟨a.compare b, compareMaximum_ok.mpr ⟨a, b, ha, hb, rfl⟩,
    compareMaximum_ok.mpr ⟨b, a, hb, ha, Bound.compare_swap a b⟩, ?_⟩
  rw [Std.LawfulEqCmp.compare_eq_iff_eq]
  constructor
  · intro hab
    exact ceiling_injective ha (hab ▸ hb)
  · intro hst
    subst hst
    exact Option.some.inj (ha.symm.trans hb)

theorem ne_gt_iff {s t : String} {a b : Bound} (ha : ceiling s = some a) (hb : ceiling t = some b) :
    compareMaximum s t ≠ .ok .gt ↔ a ≤ b := by
  rw [compareMaximum_ok.mpr ⟨a, b, ha, hb, rfl⟩, Bound.le_iff, ne_eq, Except.ok.injEq]

theorem Comparable.trans {s t u : String} (hs : Comparable s) (ht : Comparable t)
    (hu : Comparable u) (hst : compareMaximum s t ≠ .ok .gt)
    (htu : compareMaximum t u ≠ .ok .gt) : compareMaximum s u ≠ .ok .gt := by
  obtain ⟨a, ha⟩ := hs.exists_ceiling
  obtain ⟨b, hb⟩ := ht.exists_ceiling
  obtain ⟨c, hc⟩ := hu.exists_ceiling
  rw [ne_gt_iff ha hc]
  exact ((ne_gt_iff ha hb).mp hst).trans ((ne_gt_iff hb hc).mp htu)

/-- As a maximum, an orderable version sets the bound that it is itself. -/
theorem compareMaximum_of_orderable {s t : String} (hs : Comparable s) (ht : Comparable t)
    (hos : isOrderable s = true) (hot : isOrderable t = true) :
    compareMaximum s t = compareOrderable s t := by
  obtain ⟨a, ha⟩ := exists_level hos hs.fits
  obtain ⟨b, hb⟩ := exists_level hot ht.fits
  rw [compareMaximum_ok.mpr ⟨a, b, ceiling_of_level ha, ceiling_of_level hb, rfl⟩,
    compareOrderable_ok.mpr ⟨a, b, ha, hb, rfl⟩]

theorem withinMaximum_iff {v m : String} (hv : Comparable v) (hm : Comparable m)
    (ho : isOrderable v = true) :
    ∃ q, withinMaximum v m = .ok q ∧ (q = true ↔ compareMaximum v m ≠ .ok .gt) := by
  obtain ⟨a, ha⟩ := exists_level ho hv.fits
  obtain ⟨b, hb⟩ := hm.exists_ceiling
  refine ⟨decide (a ≤ b), withinMaximum_ok.mpr ⟨a, b, ha, hb, rfl⟩, ?_⟩
  rw [ne_gt_iff (ceiling_of_level ha) hb, decide_eq_true_iff]

/-- A text that no maximum is written like. -/
def Foreign (s : String) : Prop :=
  isOrderable s = false ∧ isMatcher s = false

theorem Foreign.bound {s : String} (h : Foreign s) :
    bound s = .error (.version s .orderableOrMatcher none) := by
  have hv : orderable? s = none := Option.not_isSome_iff_eq_none.mp (by simpa [isOrderable] using h.1)
  have hm : matcher? s = none := Option.not_isSome_iff_eq_none.mp (by simpa [isMatcher] using h.2)
  rw [Version.bound, hv, hm]

theorem Foreign.compareMaximum_left {s : String} (h : Foreign s) (t : String) :
    compareMaximum s t = .error (.version s .orderableOrMatcher none) := by
  rw [compareMaximum, h.bound]
  rfl

theorem Foreign.compareMaximum_right {s t : String} (h : Foreign t) (hs : Comparable s) :
    compareMaximum s t = .error (.version t .orderableOrMatcher none) := by
  obtain ⟨b, hb⟩ := hs.exists_ceiling
  rw [compareMaximum, ceiling_eq_some.mp hb, h.bound]
  rfl

/-- Maximums are ordered linearly, and orderable versions among them as they are by themselves. A
version is within a maximum if it is not above it. What is no maximum is not compared with one. -/
theorem compareMaximum_linear {a b c : String} (ha : Comparable a) (hb : Comparable b)
    (hc : Comparable c) :
    (∃ o, compareMaximum a b = .ok o ∧ compareMaximum b a = .ok o.swap ∧ (o = .eq ↔ a = b)) ∧
    (compareMaximum a b ≠ .ok .gt → compareMaximum b c ≠ .ok .gt → compareMaximum a c ≠ .ok .gt) ∧
    (isOrderable a = true → isOrderable b = true → compareMaximum a b = compareOrderable a b) ∧
    (isOrderable a = true →
      ∃ q, withinMaximum a b = .ok q ∧ (q = true ↔ compareMaximum a b ≠ .ok .gt)) ∧
    ∀ s, Foreign s → (∀ t, compareMaximum s t = .error (.version s .orderableOrMatcher none)) ∧
      compareMaximum a s = .error (.version s .orderableOrMatcher none) :=
  ⟨ha.trichotomy hb, ha.trans hb hc, compareMaximum_of_orderable ha hb, withinMaximum_iff ha hb,
    fun _ hs => ⟨hs.compareMaximum_left, hs.compareMaximum_right ha⟩⟩

theorem compareMaximum_linear_wildcards :
    Comparable "1.9.0" ∧ Comparable "1.x.x" ∧ Comparable "x.x.x" ∧
    (compareMaximum "1.9.0" "1.x.x" ≠ .ok .gt → compareMaximum "1.x.x" "x.x.x" ≠ .ok .gt →
      compareMaximum "1.9.0" "x.x.x" ≠ .ok .gt) := by
  have hversion : Comparable "1.9.0" := ⟨by decide +kernel, by decide +kernel⟩
  have hmajor : Comparable "1.x.x" := ⟨by decide +kernel, by decide +kernel⟩
  have hany : Comparable "x.x.x" := ⟨by decide +kernel, by decide +kernel⟩
  exact ⟨hversion, hmajor, hany, (compareMaximum_linear hversion hmajor hany).2.1⟩

end ProductLock.Version
