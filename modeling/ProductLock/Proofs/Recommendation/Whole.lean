import ProductLock.Proofs.Recommendation.RoundTrip

namespace ProductLock.Recommendation

open Schema

variable {s : String} {ds : List Dependency}

/-- The list of recommendations in a text. -/
def Lists (s : String) (items : List Value) : Prop :=
  ∃ entries, Json.parse s = .ok (.map entries) ∧
    find listKey "recommended_product_dependencies" entries = some (.list items)

/-- An entry that gives the fields of a dependency. -/
def Describes (item : Value) (d : Dependency) : Prop :=
  ∃ members, item = .map members ∧ Gives members d.fields

/-- A text that is used whole: each entry of its list describes one of the dependencies, in their
order, and all of them have ids that are accepted and versions that merging can compute with. -/
structure Whole (s : String) (ds : List Dependency) : Prop where
  described : ∃ items, Lists s items ∧ List.Forall₂ Describes items ds
  identified : ∀ d ∈ ds, isIdPart d.product.group = true ∧ isIdPart d.product.name = true
  recommendable : ∀ d ∈ ds, isRecommendable d = true

theorem readEntry_fields {item : Value} {d : Dependency} :
    readEntry entryRules item = .ok d.fields ↔ isRecommendable d = true ∧ Describes item d := by
  rw [readEntry_ok, accepts_fields_iff, and_comm]
  rfl

/-- A text is read as the fields of dependencies exactly if it is used whole. -/
theorem whole_iff : Whole s ds ↔ readBlob (.text s) = .ok (.ok (ds.map Dependency.fields)) := by
  rw [readBlob_text_ok]
  simp only [readDocument_ok, List.forall₂_map_right_iff, readEntry_fields, forall₂_and_right]
  constructor
  · rintro ⟨⟨items, ⟨entries, hparse, hfind⟩, hdescribed⟩, _, hall⟩
    exact ⟨_, hparse, entries, items, rfl, hfind, hall, hdescribed⟩
  · rintro ⟨_, hparse, entries, items, rfl, hfind, hall, hdescribed⟩
    exact ⟨⟨items, ⟨entries, hparse, hfind⟩, hdescribed⟩,
      fun d _ => ⟨d.product.group_ok, d.product.name_ok⟩, hall⟩

/-- What is read but not used whole is not used at all. -/
theorem unusable_iff : (∃ fault, readBlob (.text s) = .ok (.error fault)) ↔
    (∀ ds, ¬ Whole s ds) ∧ ∀ n, Json.parse s ≠ .error (.digits n) := by
  constructor
  · rintro ⟨fault, hfault⟩
    constructor
    · intro ds hwhole
      cases hfault.symm.trans (whole_iff.mp hwhole)
    · intro n hn
      cases hfault.symm.trans (readBlob_error.mpr ⟨s, n, rfl, hn, rfl⟩)
  · rintro ⟨hnone, hdigits⟩
    cases hread : readBlob (.text s) with
    | error f =>
      obtain ⟨_, n, ⟨⟩, hn, _⟩ := readBlob_error.mp hread
      exact absurd hn (hdigits n)
    | ok outcome =>
      cases outcome with
      | error fault => exact ⟨fault, rfl⟩
      | ok fs =>
        obtain ⟨ds, rfl⟩ := exists_dependencies hread
        exact absurd (whole_iff.mpr hread) (hnone ds)

/-- The blob of an artifact is used whole or, unless a number in it is too long, not at all. An entry
that is read becomes a dependency without objection. -/
theorem parse_whole (source : Option String) (s : String) :
    (∀ ds, (parse source (.text s)).result = .ok ds ↔ Whole s ds ∨
      (∀ ds', ¬ Whole s ds') ∧ (∀ n, Json.parse s ≠ .error (.digits n)) ∧ ds = []) ∧
    ∀ v f, readEntry entryRules v = .ok f → ∃ d, f.check = .ok d ∧ d.fields = f := by
  constructor
  · intro ds
    rw [parse_ok]
    constructor
    · intro h
      cases h with
      | unusable hfault =>
        obtain ⟨hnone, hdigits⟩ := unusable_iff.mp ⟨_, hfault⟩
        exact .inr ⟨hnone, hdigits, rfl⟩
      | usable hread => exact .inl (whole_iff.mpr hread)
    · rintro (hwhole | ⟨hnone, hdigits, rfl⟩)
      · exact .usable (whole_iff.mp hwhole)
      · obtain ⟨fault, hfault⟩ := unusable_iff.mpr ⟨hnone, hdigits⟩
        exact .unusable hfault
  · intro v f h
    obtain ⟨d, hd⟩ := exists_of_accepts (readEntry_ok.mp h).2
    exact ⟨d, Dependency.Fields.check_ok.mpr hd, hd⟩

end ProductLock.Recommendation
