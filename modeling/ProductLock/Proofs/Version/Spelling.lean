import ProductLock.Proofs.Version.Limit

namespace ProductLock.Version

/-- The three numbers of a version in plain decimals. -/
def triplet (major minor patch : Nat) : String :=
  toString major ++ "." ++ toString minor ++ "." ++ toString patch

/-- A word over the sixteen lowercase digits. -/
def Hexadecimal (hash : String) : Prop :=
  hash ≠ "" ∧ ∀ c ∈ hash.toList, ('0' ≤ c ∧ c ≤ '9') ∨ ('a' ≤ c ∧ c ≤ 'f')

/-- What orderable versions are compared by, the earlier fields first. -/
structure SortKey where
  major : Nat
  minor : Nat
  patch : Nat
  rank : Nat
  number : Nat
  hash : String
deriving DecidableEq, Repr

def Orderable.sortKey (v : Orderable) : SortKey :=
  ⟨v.major, v.minor, v.patch, v.stage.rank, v.stage.number, v.stage.hash⟩

/-- No number of the key has more digits than can be computed with. -/
def SortKey.Fits (k : SortKey) : Prop :=
  ∀ n ∈ [k.major, k.minor, k.patch, k.number], n < 10 ^ Numeral.digitLimit

/-- The four forms of an orderable version, each with the key it stands for. The rank in the key
tells which form it is. -/
inductive Spelled : String → SortKey → Prop where
  | release (major minor patch : Nat) :
      Spelled (triplet major minor patch) ⟨major, minor, patch, 3, 0, ""⟩
  | rc (major minor patch number : Nat) :
      Spelled (triplet major minor patch ++ "-rc" ++ toString number)
        ⟨major, minor, patch, 1, number, ""⟩
  | beta (major minor patch number : Nat) :
      Spelled (triplet major minor patch ++ "-beta" ++ toString number)
        ⟨major, minor, patch, 0, number, ""⟩
  | build (major minor patch distance : Nat) (hash : String) (hhash : Hexadecimal hash) :
      Spelled (triplet major minor patch ++ "-" ++ toString distance ++ "-g" ++ hash)
        ⟨major, minor, patch, 2, distance, hash⟩

theorem text_release (major minor patch : Nat) :
    Orderable.text ⟨major, minor, patch, .release⟩ = triplet major minor patch := by
  simp [← String.toList_inj, Orderable.text, Stage.write, triplet, Numeral.write]

theorem text_rc (major minor patch number : Nat) :
    Orderable.text ⟨major, minor, patch, .rc number⟩ =
      triplet major minor patch ++ "-rc" ++ toString number := by
  simp [← String.toList_inj, Orderable.text, Stage.write, triplet, Numeral.write]

theorem text_beta (major minor patch number : Nat) :
    Orderable.text ⟨major, minor, patch, .beta number⟩ =
      triplet major minor patch ++ "-beta" ++ toString number := by
  simp [← String.toList_inj, Orderable.text, Stage.write, triplet, Numeral.write]

theorem text_build (major minor patch distance : Nat) (hash : String) :
    Orderable.text ⟨major, minor, patch, .commits distance hash⟩ =
      triplet major minor patch ++ "-" ++ toString distance ++ "-g" ++ hash := by
  simp [← String.toList_inj, Orderable.text, Stage.write, triplet, Numeral.write]

theorem isHashChar_iff {c : Char} :
    isHashChar c = true ↔ ('0' ≤ c ∧ c ≤ '9') ∨ ('a' ≤ c ∧ c ≤ 'f') := by
  simp [isHashChar, Char.isDigit, Char.le_def]

theorem hexadecimal_iff {distance : Nat} {hash : String} :
    Hexadecimal hash ↔ (Stage.commits distance hash).Proper := by
  simp [Hexadecimal, Stage.Proper, isHashChar_iff]

/-- The forms are the writings of orderable versions, and their keys the keys of these versions. -/
theorem spelled_iff {s : String} {k : SortKey} :
    Spelled s k ↔ ∃ v : Orderable, orderable? s = some v ∧ v.sortKey = k := by
  simp only [orderable_ok]
  constructor
  · intro h
    cases h with
    | release major minor patch =>
      exact ⟨⟨major, minor, patch, .release⟩, ⟨trivial, (text_release ..).symm⟩, rfl⟩
    | rc major minor patch number =>
      exact ⟨⟨major, minor, patch, .rc number⟩, ⟨trivial, (text_rc ..).symm⟩, rfl⟩
    | beta major minor patch number =>
      exact ⟨⟨major, minor, patch, .beta number⟩, ⟨trivial, (text_beta ..).symm⟩, rfl⟩
    | build major minor patch distance hash hhash =>
      exact ⟨⟨major, minor, patch, .commits distance hash⟩,
        ⟨hexadecimal_iff.mp hhash, (text_build ..).symm⟩, rfl⟩
  · rintro ⟨⟨major, minor, patch, stage⟩, ⟨hproper, rfl⟩, rfl⟩
    cases stage with
    | release => exact text_release major minor patch ▸ .release ..
    | rc number => exact text_rc major minor patch number ▸ .rc ..
    | beta number => exact text_beta major minor patch number ▸ .beta ..
    | commits distance hash =>
      exact text_build major minor patch distance hash ▸
        .build _ _ _ _ _ (hexadecimal_iff.mpr hproper)

theorem sortKey_injective {v w : Orderable} (h : v.sortKey = w.sortKey) : v = w := by
  obtain ⟨major, minor, patch, stage⟩ := v
  obtain ⟨_, _, _, stage'⟩ := w
  cases stage <;> cases stage' <;>
    simp_all [Orderable.sortKey, Stage.rank, Stage.number, Stage.hash]

theorem fits_sortKey (v : Orderable) : v.sortKey.Fits ↔ v.fits = true := by
  simp [SortKey.Fits, Orderable.sortKey, Orderable.fits, Numeral.fits_iff, and_assoc]

/-- A text has at most one key, and a key at most one spelling. -/
theorem Spelled.key_unique {s : String} {k l : SortKey} (hk : Spelled s k) (hl : Spelled s l) :
    k = l := by
  obtain ⟨v, hv, rfl⟩ := spelled_iff.mp hk
  obtain ⟨w, hw, rfl⟩ := spelled_iff.mp hl
  rw [Option.some.inj (hv.symm.trans hw)]

theorem Spelled.text_unique {s t : String} {k : SortKey} (hs : Spelled s k) (ht : Spelled t k) :
    s = t := by
  obtain ⟨v, hv, rfl⟩ := spelled_iff.mp hs
  obtain ⟨w, hw, he⟩ := spelled_iff.mp ht
  rw [text_of_orderable hv, text_of_orderable hw, sortKey_injective he]

theorem isOrderable_iff_spelled {s : String} : isOrderable s = true ↔ ∃ k, Spelled s k := by
  simp [isOrderable, Option.isSome_iff_exists, spelled_iff]

/-- Orderable versions are the texts of four forms. Each is of one form only, the key is what is
written there, as long as its numbers are within the limit, and no other text has the same key. -/
theorem key_spelled (s : String) :
    (isOrderable s = true ↔ ∃ k, Spelled s k) ∧
    (∀ k, Orderable.sortKey <$> key s = .ok k ↔ Spelled s k ∧ k.Fits) ∧
    (∀ k l, Spelled s k → Spelled s l → k = l) ∧
    (∀ k t, Spelled s k → Spelled t k → s = t) := by
  refine ⟨isOrderable_iff_spelled, ?_,
    fun _ _ => Spelled.key_unique, fun _ _ => Spelled.text_unique⟩
  intro k
  simp only [map_ok, key_ok]
  constructor
  · rintro ⟨v, ⟨hv, hf⟩, rfl⟩
    exact ⟨spelled_iff.mpr ⟨v, hv, rfl⟩, (fits_sortKey v).mpr hf⟩
  · rintro ⟨hs, hf⟩
    obtain ⟨v, hv, rfl⟩ := spelled_iff.mp hs
    exact ⟨v, ⟨hv, (fits_sortKey v).mp hf⟩, rfl⟩

end ProductLock.Version
