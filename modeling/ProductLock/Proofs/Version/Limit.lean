import ProductLock.Proofs.Version.Order

namespace ProductLock

open Version

namespace Version

def Orderable.fits (v : Orderable) : Bool :=
  Numeral.fits v.major && Numeral.fits v.minor && Numeral.fits v.patch &&
    Numeral.fits v.stage.number

def Component.fits : Component → Bool
  | .any => true
  | .number n => Numeral.fits n

def Matcher.fits (m : Matcher) : Bool :=
  m.major.fits && m.minor.fits && m.patch.fits

/-- Every number of a version or matcher is within the digit limit. -/
def fits (s : String) : Bool :=
  (orderable? s).all Orderable.fits && (matcher? s).all Matcher.fits

theorem withinLimit_of_fits {n : Nat} (h : Numeral.fits n = true) : withinLimit n = .ok n :=
  if_pos h

theorem withinLimit_ok {n m : Nat} :
    withinLimit n = .ok m ↔ Numeral.fits n = true ∧ m = n := by
  constructor
  · intro h
    refine ⟨?_, of_withinLimit h⟩
    unfold withinLimit at h
    split at h
    · next hf => exact hf
    · contradiction
  · rintro ⟨hf, rfl⟩
    exact withinLimit_of_fits hf

theorem Orderable.checked_of_fits {v : Orderable} (h : v.fits = true) : v.checked = .ok v := by
  simp only [Orderable.fits, Bool.and_eq_true] at h
  obtain ⟨⟨⟨hmajor, hminor⟩, hpatch⟩, hstage⟩ := h
  simp only [Orderable.checked, Stage.checked, withinLimit_of_fits hmajor,
    withinLimit_of_fits hminor, withinLimit_of_fits hpatch, withinLimit_of_fits hstage]
  rfl

theorem Component.checked_of_fits {k : Component} (h : k.fits = true) : k.checked = .ok k := by
  cases k with
  | any => rfl
  | number n => exact map_ok.mpr ⟨n, withinLimit_of_fits h, rfl⟩

theorem Matcher.checked_of_fits {m : Matcher} (h : m.fits = true) : m.checked = .ok m := by
  simp only [Matcher.fits, Bool.and_eq_true] at h
  obtain ⟨⟨hmajor, hminor⟩, hpatch⟩ := h
  simp only [Matcher.checked, Component.checked_of_fits hmajor, Component.checked_of_fits hminor,
    Component.checked_of_fits hpatch]
  rfl

theorem orderable_fits {s : String} {v : Orderable} (hf : fits s = true)
    (hv : orderable? s = some v) : v.fits = true := by
  simp only [fits, hv, Option.all_some, Bool.and_eq_true] at hf
  exact hf.1

theorem matcher_fits {s : String} {m : Matcher} (hf : fits s = true)
    (hm : matcher? s = some m) : m.fits = true := by
  simp only [fits, hm, Option.all_some, Bool.and_eq_true] at hf
  exact hf.2

/-- An orderable version has a key as soon as its numbers are within the limit. -/
theorem key_ok {s : String} {v : Orderable} :
    key s = .ok v ↔ orderable? s = some v ∧ v.fits = true := by
  constructor
  · intro h
    have ho := orderable_of_key h
    rw [key, ho] at h
    simp only [Orderable.checked, Stage.checked, bind_ok, pure_ok, Except.ok.injEq,
      withinLimit_ok] at h
    obtain ⟨_, ⟨hmajor, -⟩, _, ⟨hminor, -⟩, _, ⟨hpatch, -⟩, _, ⟨_, ⟨hstage, -⟩, -⟩, -⟩ := h
    simp [ho, Orderable.fits, hmajor, hminor, hpatch, hstage]
  · rintro ⟨ho, hf⟩
    rw [key, ho]
    exact Orderable.checked_of_fits hf

theorem exists_level {s : String} (hs : isOrderable s = true) (hf : fits s = true) :
    ∃ b, level s = some b := by
  obtain ⟨v, hv⟩ := Option.isSome_iff_exists.mp hs
  exact ⟨v.bound, level_eq_some.mpr ⟨v, key_ok.mpr ⟨hv, orderable_fits hf hv⟩, rfl⟩⟩

theorem exists_ceiling {s : String} (hs : isOrderable s = true ∨ isMatcher s = true)
    (hf : fits s = true) : ∃ b, ceiling s = some b := by
  by_cases ho : isOrderable s = true
  · obtain ⟨b, hb⟩ := exists_level ho hf
    exact ⟨b, ceiling_of_level hb⟩
  · obtain ⟨m, hm⟩ := Option.isSome_iff_exists.mp (hs.resolve_left ho)
    have hnone : orderable? s = none := Option.not_isSome_iff_eq_none.mp ho
    refine ⟨m.bound, ceiling_eq_some.mpr ?_⟩
    rw [bound, hnone, hm]
    exact map_ok.mpr ⟨m, Matcher.checked_of_fits (matcher_fits hf hm), rfl⟩

end Version

end ProductLock
