import ProductLock.Proofs.Tree.Fault

namespace ProductLock

open ProductLock.Tree

variable {t t' : Tree} {α β : Type} {p : Plan α}

/-- An action that is about a file. -/
def Action.isChange (a : Action) : Bool :=
  a.target.isSome

theorem Action.isQuiet_iff {a : Action} : a.IsQuiet ↔ ¬ a.isChange = true := by
  cases a <;> simp [IsQuiet, isChange, target]

/-- An action on a path that has a name, if on any. -/
def Action.isNamable (a : Action) : Bool :=
  a.target.all Path.isNamable

theorem Action.isNamable_of_perform {a : Action} (h : a.perform t = (t', .ok ())) :
    a.isNamable = true := by
  cases a with
  | note n => rfl
  | say line => rfl
  | write path contents => exact (of_replace_ok h).1
  | delete path =>
    rw [Action.perform] at h
    split at h
    · cases h
    · next hname => exact not_not.mp hname

/-- An action fails by a fault of the system, or because its path has no name, and then changes no
file. -/
theorem Action.perform_fault {a : Action} {fault : FileFault} (h : a.perform t = (t', .error fault)) :
    fault.IsSystem ∨ a.isNamable = false ∧ t.SameFiles t' := by
  cases a with
  | note n => cases h
  | say line => cases h
  | write path contents =>
    exact (replace_fault h).imp_right fun hpath => ⟨hpath, sameFiles_of_replace_error h⟩
  | delete path =>
    rw [Action.perform] at h
    split at h
    · next hname =>
      cases h
      exact .inr ⟨Bool.eq_false_iff.mpr hname, .of_lookup rfl⟩
    · split at h
      · cases h
      · next hremove =>
        cases h
        exact .inl (remove_fault hremove)

namespace Plan

/-- The actions of a plan that are about files. -/
def changes (p : Plan α) : List Action :=
  p.actions.filter Action.isChange

theorem IsQuiet.changes (h : p.IsQuiet) : p.changes = [] :=
  List.filter_eq_nil_iff.mpr fun a ha => Action.isQuiet_iff.mp (h a ha)

end Plan

namespace Tree

variable {as : List Action} {fault : FileFault}

/-- Only actions that are about files lead on in a tree. -/
theorem carries_isChange : t.Carries (as.filter Action.isChange) t' ↔ t.Carries as t' := by
  induction as generalizing t with
  | nil => exact Iff.rfl
  | cons a as ih =>
    by_cases hchange : a.isChange = true
    · rw [List.filter_cons_of_pos hchange, carries_cons, carries_cons]
      simp only [ih]
    · rw [List.filter_cons_of_neg hchange, ih, carries_cons, (Action.isQuiet_iff.mpr hchange).perform]
      simp

theorem stops_isChange : t.Stops (as.filter Action.isChange) t' fault ↔ t.Stops as t' fault := by
  induction as generalizing t with
  | nil => exact Iff.rfl
  | cons a as ih =>
    by_cases hchange : a.isChange = true
    · rw [List.filter_cons_of_pos hchange, stops_cons, stops_cons]
      simp only [ih]
    · rw [List.filter_cons_of_neg hchange, ih, stops_cons, (Action.isQuiet_iff.mpr hchange).perform]
      simp

/-- What was carried out was about paths with names. -/
theorem takeWhile_of_carries (h : t.Carries as t') : as.takeWhile Action.isNamable = as := by
  induction as generalizing t with
  | nil => rfl
  | cons a as ih =>
    obtain ⟨t₁, hstep, hrest⟩ := carries_cons.mp h
    rw [List.takeWhile_cons_of_pos (Action.isNamable_of_perform hstep), ih hrest]

/-- Actions that fail without a fault of the system come as far as their paths have names. -/
theorem reached_of_stops (h : t.Stops as t' fault) :
    fault.IsSystem ∨ ∃ t₁, t.Carries (as.takeWhile Action.isNamable) t₁ ∧ t₁.SameFiles t' := by
  induction as generalizing t with
  | nil => exact absurd h not_stops_nil
  | cons a as ih =>
    rcases stops_cons.mp h with hstep | ⟨t₁, hstep, hrest⟩
    · rcases Action.perform_fault hstep with hsystem | ⟨hname, hsame⟩
      · exact .inl hsystem
      · rw [List.takeWhile_cons_of_neg (Bool.eq_false_iff.mp hname)]
        exact .inr ⟨t, carries_nil.mpr rfl, hsame⟩
    · rw [List.takeWhile_cons_of_pos (Action.isNamable_of_perform hstep)]
      rcases ih hrest with hsystem | ⟨t₂, hcarries, hsame⟩
      · exact .inl hsystem
      · exact .inr ⟨t₂, carries_cons.mpr ⟨t₁, hstep, hcarries⟩, hsame⟩

end Tree

/-- A plan that fails without a fault of the system has made its changes, as far as their paths have
names. -/
theorem Plan.Fails.reached {f : Failure} (h : p.Fails t t' f) :
    (∃ fault, fault.IsSystem ∧ f = .file fault) ∨
      ∃ t₁, t.Carries (p.changes.takeWhile Action.isNamable) t₁ ∧ t₁.SameFiles t' := by
  rcases h with hstops | ⟨hcarries, -⟩
  · exact (reached_of_stops (stops_isChange.mpr hstops)).imp_left fun hsystem => ⟨_, hsystem, rfl⟩
  · have hchanges : t.Carries p.changes t' := carries_isChange.mpr hcarries
    rw [takeWhile_of_carries hchanges]
    exact .inr ⟨t', hchanges, .of_lookup rfl⟩

end ProductLock
