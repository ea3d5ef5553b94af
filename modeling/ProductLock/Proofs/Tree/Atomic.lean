import ProductLock.Proofs.Tree.Frame

namespace ProductLock.Tree

variable {t t' : Tree} {i : Option Interruption} {path : Path} {bytes : ByteArray}
  {temporary : Tree → Place → String} {fault : FileFault}

theorem stopsAt_none (s : Step) : stopsAt none s = none :=
  rfl

theorem fault_of_stopsAt {s : Step} (h : stopsAt i s = some fault) :
    ∃ j, i = some j ∧ j.fault = fault := by
  cases i with
  | none => contradiction
  | some j =>
    refine ⟨j, rfl, ?_⟩
    rw [stopsAt] at h
    split at h
    · exact Option.some.inj h
    · contradiction

/-- A replacement fails with what the step says that was made to fail, or as it fails by itself. -/
theorem replaceBy_fault (h : (t.replaceBy temporary i path bytes).2 = .error fault) :
    (∃ j, i = some j ∧ j.fault = fault) ∨
      (t.replaceBy temporary none path bytes).2 = .error fault := by
  unfold replaceBy at h ⊢
  simp only [stopsAt_none]
  split at h
  · next hstop =>
    cases h
    exact .inl (fault_of_stopsAt hstop)
  · split at h
    · cases h
      exact .inr rfl
    · split at h
      · next hstop =>
        cases h
        exact .inl (fault_of_stopsAt hstop)
      · next hlocate =>
        cases h
        simp [hlocate]
      · next hlocate =>
        split at h
        · next hstop =>
          cases h
          exact .inl (fault_of_stopsAt hstop)
        · split at h
          · next hstop =>
            cases h
            exact .inl (fault_of_stopsAt hstop)
          · simp [hlocate, h]

/-- Without interruption, the file at a plain path can be replaced if and only if nothing is in the
way. -/
theorem replaceBy_ok_iff (hfresh : Fresh temporary) (ht : t.Rooted) (hplain : path.IsPlain) :
    (t.replaceBy temporary none path bytes).2 = .ok () ↔ t.Clear path := by
  constructor
  · intro h
    exact (replaceBy_ok hfresh ht hplain (Prod.ext rfl h)).clear
  · intro hclear
    obtain ⟨t', h⟩ := replaceBy_of_clear hfresh bytes ht hplain hclear
    rw [h]

/-- Replacing a file is all or nothing. When it succeeds, the path reads what was to be written; when
it fails, then with what the interrupted step says or as it fails by itself. Either way all else is as
before, the temporary file gone, but for new directories on the way to that of the file. -/
theorem replaceBy_all_or_nothing {content : String} {result : Except FileFault Unit}
    (hfresh : Fresh temporary)
    (h : t.replaceBy temporary i path content.toUTF8 = (t', result)) :
    ((result = .ok () ∧ i = none ∧ t'.read path = .ok content.toUTF8 ∧
        ∀ q, q ≠ path.place → Keeps q (path.parent.LeadsThrough q) t t') ∨
      ∃ fault, result = .error fault ∧
        ((∃ j, i = some j ∧ j.fault = fault) ∨
          (t.replaceBy temporary none path content.toUTF8).2 = .error fault) ∧
        ∀ q, Keeps q (path.parent.LeadsThrough q) t t') ∧
    (t.Rooted → path.IsPlain →
      ((t.replaceBy temporary none path content.toUTF8).2 = .ok () ↔ t.Clear path)) := by
  refine ⟨?_, fun ht hplain => replaceBy_ok_iff hfresh ht hplain⟩
  have hcases := replaceBy_cases hfresh t i path content.toUTF8
  rw [h] at hcases
  rcases hcases with ⟨fault, hresult, hkeeps⟩ | ⟨hresult, hnone, t₁, hkeeps, hwrite⟩
  · exact .inr ⟨fault, hresult, replaceBy_fault (by rw [h, hresult]), hkeeps⟩
  · refine .inl ⟨hresult, hnone, read_write hwrite, ?_⟩
    intro q hq
    exact (hkeeps q).trans (.of_eq (lookup_write hwrite hq))

/-- A lock in a directory. -/
def locked : Tree :=
  ⟨[(["etc"], .directory), (["etc", "lock"], .file "old".toUTF8)]⟩

/-- With no room left after two bytes the old text stays; otherwise the new one is there. -/
theorem replaceBy_all_or_nothing_locked :
    Fresh (fun t _ => t.temporaryName "lock") ∧
    (∃ t', locked.replaceBy (fun t _ => t.temporaryName "lock")
        (some ⟨.contents, .other 28, 0, 2⟩) ⟨0, ["etc", "lock"]⟩ "new".toUTF8 =
          (t', .error (.other 28)) ∧
      t'.lookup ["etc", "lock"] = some (.file "old".toUTF8)) ∧
    ∃ t', locked.replaceBy (fun t _ => t.temporaryName "lock") none ⟨0, ["etc", "lock"]⟩
        "new".toUTF8 = (t', .ok ()) ∧
      t'.read ⟨0, ["etc", "lock"]⟩ = .ok "new".toUTF8 := by
  have hfresh := fresh_temporaryName "lock"
  have hfull : locked.replaceBy (fun t _ => t.temporaryName "lock")
      (some ⟨.contents, .other 28, 0, 2⟩) ⟨0, ["etc", "lock"]⟩ "new".toUTF8 =
        (_, .error (.other 28)) := rfl
  obtain ⟨hcases, hclear⟩ := replaceBy_all_or_nothing hfresh hfull
  have hwritten := (hclear (by decide) (by decide)).mpr (clear_of_file (by decide) (by decide) rfl)
  refine ⟨hfresh, ⟨_, hfull, ?_⟩, _, Prod.ext rfl hwritten, ?_⟩
  · rcases hcases with ⟨hresult, -⟩ | ⟨_, -, -, hkeeps⟩
    · contradiction
    · exact (hkeeps ["etc", "lock"]).file_iff.mpr rfl
  · rcases (replaceBy_all_or_nothing hfresh (Prod.ext rfl hwritten)).1 with
      ⟨-, -, hread, -⟩ | ⟨_, hresult, -⟩
    · exact hread
    · contradiction

/-- Below what is a file no directory is made, and nothing is written. -/
example : (locked.replace ⟨0, ["etc", "lock", "new", "lock"]⟩ "new".toUTF8).2 =
    .error .notDirectory :=
  rfl

end ProductLock.Tree
