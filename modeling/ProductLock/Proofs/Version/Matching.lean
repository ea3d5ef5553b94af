import ProductLock.Proofs.Version.Comparison
import ProductLock.Proofs.Version.Kinds

namespace ProductLock.Version

/-- The forms of a matcher: its wildcards are its last components. -/
inductive Matcher.Shape : Matcher → Prop where
  | concrete (major minor patch : Nat) : Shape ⟨.number major, .number minor, .number patch⟩
  | anyPatch (major minor : Nat) : Shape ⟨.number major, .number minor, .any⟩
  | anyMinor (major : Nat) : Shape ⟨.number major, .any, .any⟩
  | anyMajor : Shape ⟨.any, .any, .any⟩

def Matcher.admits (m : Matcher) (v : Orderable) : Bool :=
  m.major.admits v.major && (m.minor.admits v.minor && m.patch.admits v.patch)

/-- The number of a component, or another one where any number will do. -/
def Component.numberOr : Component → Nat → Nat
  | .number n, _ => n
  | .any, k => k

/-- The release that a matcher admits when its wildcards are filled in. -/
def Matcher.filled (m : Matcher) (major minor patch : Nat) : Orderable :=
  ⟨m.major.numberOr major, m.minor.numberOr minor, m.patch.numberOr patch, .release⟩

theorem shape_of_closed {m : Matcher} (h : m.closed = true) : m.Shape := by
  obtain ⟨major, minor, patch⟩ := m
  cases major <;> cases minor <;> cases patch <;> first | constructor | contradiction

theorem filled_admitted (m : Matcher) (major minor patch : Nat) :
    m.admits (m.filled major minor patch) = true := by
  have hadmits (k : Component) (n : Nat) : k.admits (k.numberOr n) = true := by
    cases k <;> simp [Component.admits, Component.numberOr]
  simp [Matcher.admits, Matcher.filled, hadmits]

theorem filled_fits {m : Matcher} {major minor patch : Nat} (hm : m.fits = true)
    (hmajor : Numeral.fits major = true) (hminor : Numeral.fits minor = true)
    (hpatch : Numeral.fits patch = true) : (m.filled major minor patch).fits = true := by
  have hfits {k : Component} {n : Nat} (hk : k.fits = true) (hn : Numeral.fits n = true) :
      Numeral.fits (k.numberOr n) = true := by
    cases k with
    | number _ => exact hk
    | any => exact hn
  have hzero : Numeral.fits 0 = true := by decide
  simp only [Matcher.fits, Bool.and_eq_true] at hm
  simp only [Orderable.fits, Bool.and_eq_true]
  exact ⟨⟨⟨hfits hm.1.1 hmajor, hfits hm.1.2 hminor⟩, hfits hm.2 hpatch⟩, hzero⟩

theorem Component.le_of_admits {k : Component} {n : Nat} (h : k.admits n = true) :
    (Component.number n).compare k = .lt ∨ .number n = k := by
  cases k with
  | number m => exact .inr (congrArg Component.number (beq_iff_eq.mp h).symm)
  | any => exact .inl rfl

/-- What a matcher admits does not exceed it, whatever the stage. -/
theorem le_of_admits {m : Matcher} {v : Orderable} (h : m.admits v = true) :
    v.bound ≤ m.bound := by
  simp only [Matcher.admits, Bool.and_eq_true] at h
  obtain ⟨hmajor, hminor, hpatch⟩ := h
  rw [Bound.le_lex]
  refine (Component.le_of_admits hmajor).imp_right fun emajor => ⟨emajor, ?_⟩
  refine (Component.le_of_admits hminor).imp_right fun eminor => ⟨eminor, ?_⟩
  exact (Component.le_of_admits hpatch).imp_right fun epatch => ⟨epatch, v.stage.isLE_release⟩

/-- A version within a matcher is not above the release that the matcher makes of its numbers: up to
the first wildcard the matcher decides, and from there on the numbers are its own. -/
theorem le_filled {m : Matcher} {v : Orderable} (hm : m.Shape) (h : v.bound ≤ m.bound) :
    v.bound ≤ (m.filled v.major v.minor v.patch).bound := by
  have hstage := v.stage.isLE_release
  rw [Bound.le_lex] at *
  cases hm with
  | concrete => exact h
  | anyPatch =>
    exact h.imp_right (And.imp_right (Or.imp_right (And.imp_right fun _ => .inr ⟨rfl, hstage⟩)))
  | anyMinor => exact h.imp_right (And.imp_right fun _ => .inr ⟨rfl, .inr ⟨rfl, hstage⟩⟩)
  | anyMajor => exact .inr ⟨rfl, .inr ⟨rfl, .inr ⟨rfl, hstage⟩⟩⟩

theorem agrees_ok {pairs : List (Component × Nat)} (h : ∀ p ∈ pairs, p.1.fits = true) :
    Matcher.agrees pairs = .ok (pairs.all fun p => p.1.admits p.2) := by
  induction pairs with
  | nil => rfl
  | cons p rest ih =>
    obtain ⟨wanted, actual⟩ := p
    have hrest := ih fun q hq => h q (List.mem_cons_of_mem _ hq)
    have hfirst : wanted.agrees actual = .ok (wanted.admits actual) := by
      cases wanted with
      | any => rfl
      | number n =>
        have hn : withinLimit n = .ok n := withinLimit_of_fits (h _ List.mem_cons_self)
        simp only [Component.agrees, hn]
        rfl
    rw [List.all_cons, Matcher.agrees, hfirst]
    cases ha : wanted.admits actual with
    | true => exact hrest
    | false => rfl

theorem matchedBy_ok {s w : String} {m : Matcher} {v : Orderable} (hm : matcher? s = some m)
    (hf : m.fits = true) (hv : key w = .ok v) : matchedBy s w = .ok (m.admits v) := by
  simp only [Matcher.fits, Bool.and_eq_true] at hf
  have hpairs : ∀ p ∈ [(m.major, v.major), (m.minor, v.minor), (m.patch, v.patch)],
      p.1.fits = true := by
    simp [hf.1.1, hf.1.2, hf.2]
  simp only [matchedBy, hm, hv]
  refine (agrees_ok hpairs).trans ?_
  simp [Matcher.admits]

theorem key_of_matchedBy {s w : String} {p : Bool} (h : matchedBy s w = .ok p) :
    ∃ v, key w = .ok v := by
  unfold matchedBy at h
  split at h
  · contradiction
  · obtain ⟨v, hv, -⟩ := bind_ok.mp h
    exact ⟨v, hv⟩

/-- A matcher that is a version too sets the same bound in either reading. -/
theorem ceiling_of_matcher {s : String} {m : Matcher} (hm : matcher? s = some m)
    (hf : fits s = true) : ceiling s = some m.bound := by
  have his : isMatcher s = true := Option.isSome_of_eq_some hm
  obtain ⟨b, hb⟩ := exists_ceiling (.inr his) hf
  rcases of_bound (ceiling_eq_some.mp hb) with ⟨v, hv, rfl⟩ | ⟨m', -, hm', rfl⟩
  · have hvalid := isValid_iff.mpr (isNonOrderable_of_isOrderable (Option.isSome_of_eq_some hv))
    obtain ⟨-, major, minor, patch, rfl⟩ := isMatcher_and_isValid_iff.mp ⟨his, hvalid⟩
    cases hm.symm.trans (matcher_triplet major minor patch)
    cases hv.symm.trans (orderable_triplet major minor patch)
    exact hb
  · cases hm.symm.trans hm'
    exact hb

theorem key_filled {m : Matcher} {major minor patch : Nat}
    (h : (m.filled major minor patch).fits = true) :
    key (m.filled major minor patch).text = .ok (m.filled major minor patch) :=
  key_ok.mpr ⟨orderable_of_proper trivial, h⟩

/-- A version within a matcher has a matched version at or above it. -/
theorem exists_matched {m : Matcher} {v : Orderable} (hm : m.Shape) (hf : m.fits = true)
    (hvf : v.fits = true) (h : v.bound ≤ m.bound) :
    ∃ s w, key s = .ok w ∧ m.admits w = true ∧ v.bound ≤ w.bound := by
  simp only [Orderable.fits, Bool.and_eq_true] at hvf
  obtain ⟨⟨⟨hmajor, hminor⟩, hpatch⟩, -⟩ := hvf
  exact ⟨_, _, key_filled (filled_fits hf hmajor hminor hpatch), filled_admitted .., le_filled hm h⟩

/-- A version is within a matcher exactly if it is not above some version that the matcher matches;
what it matches itself is within it. -/
theorem withinMaximum_matched {m v : String} (hm : isMatcher m = true) (hmf : fits m = true)
    (hv : isOrderable v = true) (hvf : fits v = true) :
    ∃ q p, withinMaximum v m = .ok q ∧ matchedBy m v = .ok p ∧
      (q = true ↔ ∃ w, isOrderable w = true ∧ matchedBy m w = .ok true ∧
        ∃ o, compareOrderable v w = .ok o ∧ o ≠ .gt) ∧
      (p = true → q = true) := by
  obtain ⟨pattern, hpattern⟩ := Option.isSome_iff_exists.mp hm
  obtain ⟨x, hx⟩ := Option.isSome_iff_exists.mp hv
  have hf : pattern.fits = true := matcher_fits hmf hpattern
  have hxf : x.fits = true := orderable_fits hvf hx
  have hkey : key v = .ok x := key_ok.mpr ⟨hx, hxf⟩
  have hlevel : level v = some x.bound := level_eq_some.mpr ⟨x, hkey, rfl⟩
  have hceiling : ceiling m = some pattern.bound := ceiling_of_matcher hpattern hmf
  refine ⟨decide (x.bound ≤ pattern.bound), pattern.admits x,
    withinMaximum_ok.mpr ⟨_, _, hlevel, hceiling, rfl⟩, matchedBy_ok hpattern hf hkey, ?_, ?_⟩
  · rw [decide_eq_true_iff]
    constructor
    · intro hle
      obtain ⟨w, y, hy, hadmits, hxy⟩ :=
        exists_matched (shape_of_closed (of_matcher hpattern).1) hf hxf hle
      have hw : level w = some y.bound := level_eq_some.mpr ⟨y, hy, rfl⟩
      refine ⟨w, isOrderable_of_level hw, ?_, _,
        compareOrderable_ok.mpr ⟨_, _, hlevel, hw, rfl⟩, Bound.le_iff.mp hxy⟩
      rw [matchedBy_ok hpattern hf hy, hadmits]
    · rintro ⟨w, -, hw, o, ho, hne⟩
      obtain ⟨y, hy⟩ := key_of_matchedBy hw
      obtain ⟨a, b, ha, hb, rfl⟩ := compareOrderable_ok.mp ho
      cases hlevel.symm.trans ha
      cases hb.symm.trans (level_eq_some.mpr ⟨y, hy, rfl⟩)
      rw [matchedBy_ok hpattern hf hy, Except.ok.injEq] at hw
      exact (Bound.le_iff.mpr hne).trans (le_of_admits hw)
  · intro hadmits
    exact decide_eq_true (le_of_admits hadmits)

/-- A build of an earlier minor version is not matched, but what is matched is above it. -/
theorem withinMaximum_matched_build :
    (isMatcher "1.2.x" = true ∧ fits "1.2.x" = true) ∧
    (isOrderable "1.1.9-3-gabc" = true ∧ fits "1.1.9-3-gabc" = true) ∧
    matchedBy "1.2.x" "1.1.9-3-gabc" = .ok false ∧
    ∃ w, isOrderable w = true ∧ matchedBy "1.2.x" w = .ok true ∧
      ∃ o, compareOrderable "1.1.9-3-gabc" w = .ok o ∧ o ≠ .gt := by
  have hm : isMatcher "1.2.x" = true ∧ fits "1.2.x" = true := by decide +kernel
  have hv : isOrderable "1.1.9-3-gabc" = true ∧ fits "1.1.9-3-gabc" = true := by decide +kernel
  have hwithin : withinMaximum "1.1.9-3-gabc" "1.2.x" = .ok true := by decide +kernel
  have hunmatched : matchedBy "1.2.x" "1.1.9-3-gabc" = .ok false := by decide +kernel
  obtain ⟨q, -, hq, -, hiff, -⟩ := withinMaximum_matched hm.1 hm.2 hv.1 hv.2
  cases hwithin.symm.trans hq
  exact ⟨hm, hv, hunmatched, hiff.mp rfl⟩

end ProductLock.Version
