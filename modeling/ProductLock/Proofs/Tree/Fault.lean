import ProductLock.Proofs.Tree.Atomic

namespace ProductLock

/-- A fault that the system reports. -/
def FileFault.IsSystem (fault : FileFault) : Prop :=
  fault ≠ .unnamable

instance (f : Failure) : Decidable (∀ fault, f ≠ .file fault) :=
  decidable_of_iff ((match f with | .file _ => true | _ => false) = false) (by cases f <;> simp)

namespace Tree

variable {t t' : Tree} {here : Place} {path : Path} {parts : List String} {bytes : ByteArray}
  {temporary : Tree → Place → String} {fault : FileFault}

theorem walk_fault (h : t.walk here parts = .error fault) : fault.IsSystem := by
  induction parts generalizing here with
  | nil => contradiction
  | cons part parts ih =>
    rw [walk] at h
    split at h
    · cases h
      simp [FileFault.IsSystem]
    · cases h
      simp [FileFault.IsSystem]
    · exact ih h

theorem write_fault (h : t.write path bytes = .error fault) : fault.IsSystem := by
  cases hlocate : t.locate path with
  | error other =>
    rw [write, hlocate] at h
    cases h
    exact walk_fault hlocate
  | ok p =>
    rw [write_of_locate hlocate] at h
    split at h
    · cases h
      simp [FileFault.IsSystem]
    · contradiction

theorem remove_fault (h : t.remove path = .error fault) : fault.IsSystem := by
  cases hlocate : t.locate path with
  | error other =>
    rw [remove, hlocate] at h
    cases h
    exact walk_fault hlocate
  | ok p =>
    rw [remove_of_locate hlocate] at h
    split at h
    · cases h
      simp [FileFault.IsSystem]
    · cases h
      simp [FileFault.IsSystem]
    · contradiction

theorem makeDirectory_fault (h : t.makeDirectory path = .error fault) : fault.IsSystem := by
  cases hlocate : t.locate path with
  | error other =>
    rw [makeDirectory, hlocate] at h
    cases h
    exact walk_fault hlocate
  | ok p =>
    rw [makeDirectory_of_locate hlocate] at h
    split at h
    · cases h
      simp [FileFault.IsSystem]
    · contradiction

theorem acceptDirectory_fault {other : FileFault} (hother : other.IsSystem)
    (h : (t.acceptDirectory path other).2 = .error fault) : fault.IsSystem := by
  rw [acceptDirectory] at h
  split at h
  · contradiction
  · cases h
    exact hother

theorem ensureFrom_fault {slashes : Nat} (h : (t.ensureFrom slashes parts).2 = .error fault) :
    fault.IsSystem := by
  induction parts generalizing fault with
  | nil =>
    have hexists : FileFault.exists.IsSystem := by simp [FileFault.IsSystem]
    exact acceptDirectory_fault hexists h
  | cons part parents ih =>
    rw [ensureFrom] at h
    split at h
    · contradiction
    · split at h
      · next hensure =>
        cases h
        exact ih (by rw [hensure])
      · split at h
        · contradiction
        · next hmake => exact acceptDirectory_fault (makeDirectory_fault hmake) h
    · next hmake => exact acceptDirectory_fault (makeDirectory_fault hmake) h

theorem rename_fault {source : Place} (h : t.rename source bytes path = .error fault) :
    fault.IsSystem := by
  rw [rename] at h
  split at h
  · cases h
    simp [FileFault.IsSystem]
  · exact write_fault h

/-- What fails by itself in replacing a file is told by the system. -/
theorem isSystem_of_replaceBy (h : (t.replaceBy temporary none path bytes).2 = .error fault) :
    fault.IsSystem := by
  unfold replaceBy at h
  simp only [stopsAt_none] at h
  split at h
  · next hensure =>
    cases h
    exact ensureFrom_fault (by rw [← ensureDirectory, hensure])
  · split at h
    · contradiction
    · next hlocate =>
      cases h
      exact walk_fault hlocate
    · split at h
      · contradiction
      · next hrename =>
        cases h
        exact rename_fault hrename

/-- Only where the path cannot be named is the system not asked. -/
theorem replace_fault (h : t.replace path bytes = (t', .error fault)) :
    fault.IsSystem ∨ path.isNamable = false := by
  by_cases hpath : path.isNamable = true
  · rw [replace_of_namable hpath] at h
    exact .inl (isSystem_of_replaceBy (by rw [h]))
  · exact .inr (Bool.eq_false_iff.mpr hpath)

end Tree

end ProductLock
