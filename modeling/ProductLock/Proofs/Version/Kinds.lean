import Mathlib.Data.List.TakeWhile
import ProductLock.Proofs.Version.Characters
import ProductLock.Proofs.Version.Spelling

namespace ProductLock.Version

theorem skipDigits_write (n : Nat) {rest : List Char} (h : Numeral.Stops rest) :
    skipDigits (Numeral.write n ++ rest) = some rest := by
  obtain ⟨htake, hdrop⟩ := Numeral.split_write n h
  rw [skipDigits, htake, hdrop, if_neg (Numeral.digits_write n).ne_nil]

/-- A tag may be anything, the stage of an orderable version among others. -/
theorem isLooseSuffix_stage {stage : Stage} (h : stage.Proper) :
    isLooseSuffix stage.write = true := by
  rcases h.tagged with hnil | ⟨tag, hcons, hne, htag⟩
  · rw [hnil]
    rfl
  · have htake : tag.takeWhile isTagChar = tag := List.takeWhile_eq_self_iff.mpr htag
    have hdrop : tag.dropWhile isTagChar = [] := List.dropWhile_eq_nil_iff.mpr htag
    simp [hcons, isLooseSuffix, htake, hdrop, hne, isDirtyMark]

theorem isNonOrderable_of_isOrderable {s : String} (h : isOrderable s = true) :
    isNonOrderable s = true := by
  obtain ⟨v, hv⟩ := Option.isSome_iff_exists.mp h
  obtain ⟨hproper, rfl⟩ := orderable_ok.mp hv
  simp [isNonOrderable, v.toList_text, skipDigits_write _ (stops_point _), expect_self,
    skipDigits_write _ (stops_stage v.stage), isLooseSuffix_stage hproper]

theorem isValid_iff {s : String} : isValid s = true ↔ isNonOrderable s = true := by
  rw [isValid, Bool.or_eq_true]
  constructor
  · rintro (h | h)
    · exact isNonOrderable_of_isOrderable h
    · exact h
  · exact .inr

theorem orderable_triplet (major minor patch : Nat) :
    orderable? (triplet major minor patch) = some ⟨major, minor, patch, .release⟩ := by
  rw [← text_release]
  exact orderable_of_proper trivial

theorem text_numbers (major minor patch : Nat) :
    Matcher.text ⟨.number major, .number minor, .number patch⟩ = triplet major minor patch := by
  simp [← String.toList_inj, Matcher.text, Component.write, triplet, Numeral.write]

theorem matcher_triplet (major minor patch : Nat) :
    matcher? (triplet major minor patch) = some ⟨.number major, .number minor, .number patch⟩ :=
  matcher_ok.mpr ⟨rfl, (text_numbers major minor patch).symm⟩

/-- A wildcard stands where a version has digits. -/
theorem number_of_skipDigits {k : Component} {rest cs : List Char} (hr : Numeral.Stops rest)
    (h : skipDigits (k.write ++ rest) = some cs) : (∃ n, k = .number n) ∧ cs = rest := by
  cases k with
  | any => contradiction
  | number n =>
    rw [Component.write, skipDigits_write n hr] at h
    exact ⟨⟨n, rfl⟩, (Option.some.inj h).symm⟩

theorem triplet_of_isNonOrderable {m : Matcher} (h : isNonOrderable m.text = true) :
    ∃ major minor patch, m.text = triplet major minor patch := by
  unfold isNonOrderable at h
  split at h
  · next rest hread =>
    simp only [m.toList_text, Option.bind_eq_bind, Option.bind_eq_some_iff, expect_ok] at hread
    obtain ⟨_, h₁, _, hdot₁, _, h₂, _, hdot₂, h₃⟩ := hread
    obtain ⟨⟨major, hmajor⟩, rfl⟩ := number_of_skipDigits (stops_point _) h₁
    cases hdot₁
    obtain ⟨⟨minor, hminor⟩, rfl⟩ := number_of_skipDigits (stops_point _) h₂
    cases hdot₂
    obtain ⟨⟨patch, hpatch⟩, -⟩ := number_of_skipDigits Numeral.stops_nil h₃
    refine ⟨major, minor, patch, ?_⟩
    rw [← text_numbers, ← hmajor, ← hminor, ← hpatch]
  · contradiction

/-- Only a release is both a version and a matcher. -/
theorem isMatcher_and_isValid_iff {s : String} : isMatcher s = true ∧ isValid s = true ↔
    isOrderable s = true ∧ ∃ major minor patch, s = triplet major minor patch := by
  constructor
  · rintro ⟨hm, hv⟩
    obtain ⟨m, hm⟩ := Option.isSome_iff_exists.mp hm
    obtain rfl := text_of_matcher hm
    obtain ⟨major, minor, patch, htext⟩ := triplet_of_isNonOrderable (isValid_iff.mp hv)
    refine ⟨?_, major, minor, patch, htext⟩
    rw [htext, isOrderable, orderable_triplet]
    rfl
  · rintro ⟨ho, major, minor, patch, rfl⟩
    refine ⟨?_, isValid_iff.mpr (isNonOrderable_of_isOrderable ho)⟩
    rw [isMatcher, matcher_triplet]
    rfl

/-- Whether a text is of that kind. -/
def Kind.Applies (s : String) : Kind → Prop
  | .orderable => isOrderable s = true
  | .nonOrderable => isNonOrderable s = true
  | .matcher => isMatcher s = true
  | .invalid => isValidOrMatcher s = false

theorem mem_classify {s : String} {k : Kind} : k ∈ classify s ↔ k.Applies s := by
  cases k <;> cases ho : isOrderable s <;> cases hn : isNonOrderable s <;>
    cases hm : isMatcher s <;>
    simp [classify, Kind.Applies, isValidOrMatcher, isValid, ho, hn, hm]

/-- Of the eight combinations, the inclusion rules out two and the overlap with matchers one. -/
theorem classify_cases (s : String) :
    classify s ∈ [[.orderable, .nonOrderable, .matcher], [.orderable, .nonOrderable],
      [.nonOrderable], [.matcher], [.invalid]] := by
  by_cases hn : isNonOrderable s = true
  · by_cases hm : isMatcher s = true
    · have ho := (isMatcher_and_isValid_iff.mp ⟨hm, isValid_iff.mpr hn⟩).1
      simp [classify, ho, hn, hm]
    · by_cases ho : isOrderable s = true
      · simp [classify, ho, hn, hm]
      · simp [classify, ho, hn, hm]
  · have ho : ¬ isOrderable s = true := fun h => hn (isNonOrderable_of_isOrderable h)
    by_cases hm : isMatcher s = true
    · simp [classify, ho, hn, hm]
    · simp [classify, ho, hn, hm]

/-- Every orderable version is a non-orderable one too, so that these are the valid versions, and a
matcher is one of them only if it is a release. This leaves five classifications. -/
theorem kinds_related (s : String) :
    (isOrderable s = true → isNonOrderable s = true) ∧
    (isValid s = true ↔ isNonOrderable s = true) ∧
    (isMatcher s = true ∧ isValid s = true ↔
      isOrderable s = true ∧ ∃ major minor patch, s = triplet major minor patch) ∧
    (∀ k, k ∈ classify s ↔ k.Applies s) ∧
    classify s ∈ [[.orderable, .nonOrderable, .matcher], [.orderable, .nonOrderable],
      [.nonOrderable], [.matcher], [.invalid]] :=
  ⟨isNonOrderable_of_isOrderable, isValid_iff, isMatcher_and_isValid_iff, fun _ => mem_classify,
    classify_cases s⟩

end ProductLock.Version
