import ProductLock.Proofs.Version.Matching

namespace ProductLock.Version

/-- Once a part of a bound is a wildcard, the rest is as loose as it can be. -/
structure Bound.Closed (b : Bound) : Prop where
  minor : b.major = .any → b.minor = .any
  patch : b.minor = .any → b.patch = .any
  stage : b.patch = .any → b.stage = .release

/-- One more than a number; at a wildcard there is no more to come. -/
def Component.next : Component → Nat
  | .number n => n + 1
  | .any => 0

def Component.numbers : Component → List Nat
  | .number n => [n]
  | .any => []

def Bound.numbers (b : Bound) : List Nat :=
  b.major.numbers ++ b.minor.numbers ++ b.patch.numbers ++ [b.stage.number]

/-- A maximum whose numbers have fewer digits than the limit, so that each has a successor that can
be computed with. -/
structure Roomy (s : String) : Prop extends Comparable s where
  short : ∀ b, bound s = .ok b → ∀ n ∈ b.numbers, Numeral.digitCount n < Numeral.digitLimit

theorem closed_of_bound {s : String} {b : Bound} (h : bound s = .ok b) : b.Closed := by
  rcases of_bound h with ⟨v, -, rfl⟩ | ⟨m, -, hm, rfl⟩
  · exact ⟨nofun, nofun, nofun⟩
  · cases shape_of_closed (of_matcher hm).1 with
    | concrete => exact ⟨nofun, nofun, nofun⟩
    | anyPatch => exact ⟨nofun, nofun, fun _ => rfl⟩
    | anyMinor => exact ⟨nofun, fun _ => rfl, fun _ => rfl⟩
    | anyMajor => exact ⟨fun _ => rfl, fun _ => rfl, fun _ => rfl⟩

theorem Component.lt_next {k : Component} {p : Prop} (h : k.compare .any = .lt ∨ k = .any ∧ p)
    (hp : k = .any → ¬ p) : k.compare (.number k.next) = .lt := by
  cases k with
  | number n => exact Nat.compare_eq_lt.mpr (Nat.lt_succ_self n)
  | any =>
    rcases h with h | ⟨-, h⟩
    · contradiction
    · exact absurd h (hp rfl)

/-- Nothing that follows a wildcard makes a bound lower. -/
theorem Component.not_lower {k next : Component} {p : Prop} (hk : k = .any → next = .any)
    (hp : next = .any → ¬ p) (hany : k = .any) :
    ¬ (next.compare .any = .lt ∨ next = .any ∧ p) := by
  have hnext : next = .any := hk hany
  rw [hnext]
  rintro (hlt | ⟨-, hlow⟩)
  · contradiction
  · exact hp hnext hlow

/-- A bound below a matcher is below a release that the matcher admits: where the first wildcard
stands, the bound has a number, and the next number is above it. -/
theorem lt_filled {m : Matcher} {b : Bound} (hm : m.Shape) (hb : b.Closed) (h : b < m.bound) :
    b < (m.filled b.major.next b.minor.next b.patch.next).bound := by
  have hstage : b.patch = .any → ¬ b.stage.compare .release = .lt := by
    intro hpatch
    rw [hb.stage hpatch]
    decide
  have hpatch := Component.not_lower hb.patch hstage
  have hminor := Component.not_lower hb.minor hpatch
  rw [Bound.lt_lex] at *
  cases hm with
  | concrete => exact h
  | anyPatch =>
    exact h.imp_right (And.imp_right (Or.imp_right (And.imp_right fun h =>
      .inl (Component.lt_next h hstage))))
  | anyMinor =>
    exact h.imp_right (And.imp_right fun h => .inl (Component.lt_next h hpatch))
  | anyMajor => exact .inl (Component.lt_next h hminor)

theorem fits_next {k : Component}
    (h : ∀ n ∈ k.numbers, Numeral.digitCount n < Numeral.digitLimit) :
    Numeral.fits k.next = true := by
  cases k with
  | number n => exact Numeral.fits_succ (h n List.mem_cons_self)
  | any => decide

theorem fits_triplet {major minor patch : Nat}
    (h : Orderable.fits ⟨major, minor, patch, .release⟩ = true) :
    fits (triplet major minor patch) = true := by
  simp only [Orderable.fits, Bool.and_eq_true] at h
  simp [fits, orderable_triplet, matcher_triplet, Orderable.fits, Matcher.fits, Component.fits, h]

/-- Some version is within a maximum and above a lower one, if the lower one leaves room for it. -/
theorem exists_separating {a b : String} {x y : Bound} (ha : bound a = .ok x) (hf : fits a = true)
    (hb : bound b = .ok y) (hroom : Roomy b) (h : y < x) :
    ∃ v z, fits v = true ∧ level v = some z ∧ z ≤ x ∧ y < z := by
  have hshort := hroom.short y hb
  simp only [Bound.numbers, List.forall_mem_append] at hshort
  rcases of_bound ha with ⟨v, hv, rfl⟩ | ⟨m, -, hm, rfl⟩
  · exact ⟨a, v.bound, hf, level_eq_some.mpr ⟨v, key_ok.mpr ⟨hv, orderable_fits hf hv⟩, rfl⟩,
      le_rfl, h⟩
  · have hfilled := filled_fits (matcher_fits hf hm) (fits_next hshort.1.1.1)
      (fits_next hshort.1.1.2) (fits_next hshort.1.2)
    refine ⟨_, _, ?_, level_eq_some.mpr ⟨_, key_filled hfilled, rfl⟩, ?_, ?_⟩
    · rw [Matcher.filled, text_release]
      exact fits_triplet hfilled
    · exact le_of_admits (filled_admitted ..)
    · exact lt_filled (shape_of_closed (of_matcher hm).1) (closed_of_bound hb) h

/-- A maximum is not looser than another exactly if the other admits every version that it admits.
Room is asked of the other one because above the greatest number within the limit there is no
version left to tell it from a wildcard. -/
theorem compareMaximum_inclusion {a b : String} (ha : Comparable a) (hb : Roomy b) :
    ∃ o, compareMaximum a b = .ok o ∧
      (o ≠ .gt ↔ ∀ v, isOrderable v = true → fits v = true →
        withinMaximum v a = .ok true → withinMaximum v b = .ok true) := by
  obtain ⟨x, hx⟩ := ha.exists_ceiling
  obtain ⟨y, hy⟩ := hb.exists_ceiling
  refine ⟨x.compare y, compareMaximum_ok.mpr ⟨x, y, hx, hy, rfl⟩, ?_⟩
  rw [← Bound.le_iff]
  constructor
  · intro hle v _ _ hv
    obtain ⟨z, x', hz, hx', hzx⟩ := withinMaximum_ok.mp hv
    cases hx.symm.trans hx'
    exact withinMaximum_ok.mpr ⟨z, y, hz, hy, decide_eq_true ((of_decide_eq_true hzx).trans hle)⟩
  · intro hsub
    by_contra hlt
    obtain ⟨v, z, hf, hz, hzx, hyz⟩ := exists_separating (ceiling_eq_some.mp hx) ha.fits
      (ceiling_eq_some.mp hy) hb (not_le.mp hlt)
    have hin : withinMaximum v a = .ok true :=
      withinMaximum_ok.mpr ⟨z, x, hz, hx, decide_eq_true hzx⟩
    obtain ⟨z', y', hz', hy', hle⟩ := withinMaximum_ok.mp (hsub v (isOrderable_of_level hz) hf hin)
    cases hz.symm.trans hz'
    cases hy.symm.trans hy'
    exact absurd (of_decide_eq_true hle) (not_le.mpr hyz)

/-- A matcher is looser than every version of its major, so it admits one that is above. -/
theorem compareMaximum_inclusion_wildcard :
    Comparable "1.x.x" ∧ Roomy "1.9.0-rc2" ∧ compareMaximum "1.x.x" "1.9.0-rc2" = .ok .gt ∧
    ¬ ∀ v, isOrderable v = true → fits v = true →
      withinMaximum v "1.x.x" = .ok true → withinMaximum v "1.9.0-rc2" = .ok true := by
  have hmatcher : Comparable "1.x.x" := ⟨by decide +kernel, by decide +kernel⟩
  have hversion : Comparable "1.9.0-rc2" := ⟨by decide +kernel, by decide +kernel⟩
  have hbound : bound "1.9.0-rc2" = .ok ⟨.number 1, .number 9, .number 0, .rc 2⟩ := by
    decide +kernel
  have hroomy : Roomy "1.9.0-rc2" := ⟨hversion, fun b hb => by
    cases hbound.symm.trans hb
    decide +kernel⟩
  have hgt : compareMaximum "1.x.x" "1.9.0-rc2" = .ok .gt := by decide +kernel
  obtain ⟨o, ho, hiff⟩ := compareMaximum_inclusion hmatcher hroomy
  cases hgt.symm.trans ho
  exact ⟨hmatcher, hroomy, hgt, fun hsub => hiff.mpr hsub rfl⟩

end ProductLock.Version
