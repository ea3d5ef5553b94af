import ProductLock.Dependency.Fields
import ProductLock.Proofs.Outcome

namespace ProductLock

theorem IdPart.chars {s : String} (h : isIdPart s = true) :
    s.toList ≠ [] ∧ ∀ c ∈ s.toList, isIdChar c = true := by
  simp only [isIdPart, Bool.and_eq_true, bne_iff_ne, List.all_eq_true] at h
  exact h

theorem IdPart.ne_empty {s : String} (h : isIdPart s = true) : s ≠ "" := by
  rintro rfl
  contradiction

theorem ProductId.ofParts_ok {group name : String} {id : ProductId} :
    ofParts group name = .ok id ↔ id.group = group ∧ id.name = name := by
  constructor
  · intro h
    unfold ofParts at h
    split at h
    · split at h
      · cases h
        exact ⟨rfl, rfl⟩
      · contradiction
    · contradiction
  · intro h
    obtain ⟨rfl, rfl⟩ := h
    rw [ofParts, dif_pos id.group_ok, dif_pos id.name_ok]

namespace Dependency

theorem requireVersion_ok {ok : String → Bool} {expected : Expected} {id : ProductId} {v : String}
    {p : PLift (ok v = true)} : requireVersion ok expected id v = .ok p := by
  unfold requireVersion
  rw [dif_pos p.down]

theorem requireRecommended_ok {id : ProductId} {r : Option String}
    {p : PLift (∀ v, r = some v → Version.isValid v = true)} :
    requireRecommended id r = .ok p := by
  cases r with
  | none => rfl
  | some v =>
    have hv : PLift (Version.isValid v = true) := ⟨p.down v rfl⟩
    exact bind_ok.mpr ⟨hv, requireVersion_ok, rfl⟩

/-- The parts of a dependency are checked without objection, and are put together again. -/
theorem Fields.check_ok {f : Fields} {d : Dependency} : f.check = .ok d ↔ d.fields = f := by
  constructor
  · intro h
    unfold Fields.check at h
    obtain ⟨id, hid, h⟩ := bind_ok.mp h
    obtain ⟨_, _, h⟩ := bind_ok.mp h
    obtain ⟨_, _, h⟩ := bind_ok.mp h
    obtain ⟨_, _, h⟩ := bind_ok.mp h
    cases h
    obtain ⟨hgroup, hname⟩ := ProductId.ofParts_ok.mp (mapError_ok.mp hid)
    simp [fields, hgroup, hname]
  · intro h
    subst h
    unfold Fields.check
    refine bind_ok.mpr ⟨d.product, ?_, ?_⟩
    · exact mapError_ok.mpr (ProductId.ofParts_ok.mpr ⟨rfl, rfl⟩)
    · refine bind_ok.mpr ⟨⟨d.minimum_ok⟩, requireVersion_ok, ?_⟩
      refine bind_ok.mpr ⟨⟨d.maximum_ok⟩, requireVersion_ok, ?_⟩
      exact bind_ok.mpr ⟨⟨d.recommended_ok⟩, requireRecommended_ok, rfl⟩

/-- A dependency is nothing but its parts. -/
theorem eq_of_fields {d e : Dependency} (h : d.fields = e.fields) : d = e := by
  have hd : d.fields.check = .ok d := Fields.check_ok.mpr rfl
  have he : e.fields.check = .ok e := Fields.check_ok.mpr rfl
  rw [h, he] at hd
  exact (Except.ok.inj hd).symm

/-- What is said of a version that does not have the form asked of it. -/
def IsVersionFault (e : Failure) : Prop :=
  ∃ v expected subject, e = .version v expected subject

theorem requireVersion_error {ok : String → Bool} {expected : Expected} {id : ProductId}
    {v : String} {e : Failure} (h : requireVersion ok expected id v = .error e) :
    IsVersionFault e := by
  unfold requireVersion at h
  by_cases hv : ok v = true
  · rw [dif_pos hv] at h
    contradiction
  · rw [dif_neg hv] at h
    cases h
    exact ⟨_, _, _, rfl⟩

theorem requireRecommended_error {id : ProductId} {r : Option String} {e : Failure}
    (h : requireRecommended id r = .error e) : IsVersionFault e := by
  cases r with
  | none => contradiction
  | some v =>
    rcases bind_error.mp h with h | ⟨_, _, h⟩
    · exact requireVersion_error h
    · contradiction

/-- The id is checked first, and after a good id only a version can be at fault. -/
theorem Fields.check_error {f : Fields} {e : Failure} (h : f.check = .error e) :
    (∃ fault, ProductId.ofParts f.group f.name = .error fault ∧ e = .id fault) ∨
      (∃ id, ProductId.ofParts f.group f.name = .ok id) ∧ IsVersionFault e := by
  unfold Fields.check at h
  cases hid : ProductId.ofParts f.group f.name with
  | error fault =>
    rw [hid] at h
    cases h
    exact .inl ⟨fault, rfl, rfl⟩
  | ok id =>
    rw [hid] at h
    refine .inr ⟨⟨id, rfl⟩, ?_⟩
    rcases bind_error.mp h with h | ⟨_, _, h⟩
    · contradiction
    rcases bind_error.mp h with h | ⟨_, _, h⟩
    · exact requireVersion_error h
    rcases bind_error.mp h with h | ⟨_, _, h⟩
    · exact requireVersion_error h
    rcases bind_error.mp h with h | ⟨_, _, h⟩
    · exact requireRecommended_error h
    · contradiction

/-- Parts with a faulty id are refused for it, whatever their versions. -/
theorem Fields.check_of_id_error {f : Fields} {fault : IdFault}
    (h : ProductId.ofParts f.group f.name = .error fault) : f.check = .error (.id fault) := by
  rw [Fields.check, h]
  rfl

/-- The dependency with these parts, where they pass the checks. -/
def ofFields (f : Fields) (h : f.check.toOption.isSome = true) : Dependency :=
  f.check.toOption.get h

end Dependency

end ProductLock
