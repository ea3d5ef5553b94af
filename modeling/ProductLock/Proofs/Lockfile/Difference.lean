import ProductLock.Proofs.Diff.Unified
import ProductLock.Proofs.Lockfile.Modes

namespace ProductLock.Lockfile

open ProductLock.Tree Plan

variable {t : Tree} {mode : Mode} {path place : Path} {w : Workspace} {r : Report}
  {before after : Option String} {state : LockfileState} {diff : String}

/-- A difference with two lines in front of its hunks that name the file on either side. -/
def titledLines (path : Path) (old new : String) : List String :=
  match Diff.hunks (Diff.script ((Text.lines old).map Text.Line.text)
    ((Text.lines new).map Text.Line.text)) with
  | [] => []
  | hunk :: hunks =>
    ("--- " ++ path.text ++ " (on disk)\n") :: ("+++ " ++ path.text ++ " (resolved)\n") ::
      (hunk :: hunks).flatMap Diff.Hunk.lines

/-- What is shown of the difference between what a lockfile holds and what it should hold: all but
its titles. No file reads like an empty one. -/
def difference (path : Path) (before after : Option String) : String :=
  Diff.dropFinalBreaks (String.join
    (((titledLines path (before.getD "") (after.getD "")).drop 2).map Diff.endLine))

/-- Leaving out the titles takes nothing from the hunks. -/
theorem difference_eq (path : Path) (before after : Option String) :
    difference path before after = Diff.unified (before.getD "") (after.getD "") := by
  rw [difference, titledLines, Diff.unified]
  generalize Diff.hunks _ = hunks
  cases hunks <;> rfl

theorem difference_eq_empty_iff :
    difference path before after = "" ↔ before.getD "" = after.getD "" := by
  rw [difference_eq, Diff.unified_eq_empty_iff]

theorem render_ne_empty (w : Workspace) (r : Report) : render w r ≠ some "" := by
  intro h
  by_cases hnil : r.dependencies = []
  · rw [render, if_pos hnil] at h
    contradiction
  · rw [render, if_neg hnil, Option.some.injEq, ← String.toList_inj, String.toList_append] at h
    exact absurd (List.append_eq_nil_iff.mp h).1 (by decide)

theorem contents_error {x : Except FileFault ByteArray} {f : Failure}
    (h : contents x = .error f) : f = .notText ∨ ∃ fault, f = .file fault := by
  unfold contents at h
  split at h
  · cases h
  · cases h
  · cases h
    exact .inr ⟨_, rfl⟩
  · split at h
    · cases h
    · cases h
      exact .inl rfl

/-- Only a check complains, and it shows how what it found differs from what it should have found. -/
theorem compare_error {f : Failure} (h : compare mode path before after = .error f) :
    ∃ state, (Outcome.between before after).complaint = some state ∧
      f = .lockfile state path (difference path before after) := by
  cases mode with
  | write =>
    rw [compare_write] at h
    contradiction
  | check =>
    rw [compare_check] at h
    cases hcomplaint : (Outcome.between before after).complaint with
    | none =>
      rw [hcomplaint] at h
      contradiction
    | some state =>
      rw [hcomplaint] at h
      refine ⟨state, rfl, ?_⟩
      rw [difference_eq]
      exact (Except.error.inj h).symm

/-- A lockfile that is complained of was read. -/
theorem syncAt_complains (h : (syncAt mode path w r t).result = .error (.lockfile state place diff)) :
    ∃ before, contents (t.read path) = .ok before ∧
      (Outcome.between before (render w r)).complaint = some state ∧
      place = path ∧ diff = difference path before (render w r) := by
  cases hcontents : contents (t.read path) with
  | error f =>
    rw [syncAt, hcontents] at h
    have hf : f = .lockfile state place diff := Except.error.inj h
    rcases contents_error hcontents with heq | ⟨fault, heq⟩
    · rw [heq] at hf
      contradiction
    · rw [heq] at hf
      contradiction
  | ok before =>
    rw [syncAt_eq mode w r hcontents] at h
    rcases perform_result t (sync mode path before (render w r)) with hresult | ⟨fault, hfault⟩
    · rw [hresult, sync, result_bind_error] at h
      rcases h with hcompare | ⟨outcome, _, henact⟩
      · obtain ⟨_, hcomplaint, hf⟩ := compare_error hcompare
        cases hf
        exact ⟨before, rfl, hcomplaint, rfl, rfl⟩
      · rcases result_bind_error.mp henact with hnone | ⟨_, _, hnone⟩
        · rw [result_enact] at hnone
          contradiction
        · contradiction
    · rw [hfault] at h
      cases h

/-- What is shown behind a complaint about a lockfile that holds `before`. -/
def Shown (before : Option String) (diff : String) : LockfileState → Prop
  | .missing | .stale => diff ≠ ""
  | .unwanted => diff = "" ↔ before = some ""

theorem shown_of_complaint
    (h : (Outcome.between before (render w r)).complaint = some state) :
    Shown before (difference path before (render w r)) state := by
  cases hafter : render w r with
  | none =>
    rw [hafter] at h
    cases before with
    | none => contradiction
    | some old =>
      cases h
      rw [Shown, difference_eq_empty_iff, Option.some.injEq]
      rfl
  | some new =>
    have hne : new ≠ "" := fun heq => render_ne_empty w r (heq ▸ hafter)
    rw [hafter] at h
    cases before with
    | none =>
      cases h
      rw [Shown, ne_eq, difference_eq_empty_iff]
      exact hne.symm
    | some old =>
      rw [Outcome.between] at h
      split at h
      · contradiction
      · next hdiffers =>
        cases h
        rw [Shown, ne_eq, difference_eq_empty_iff]
        exact hdiffers

theorem message_eq_advice_iff :
    (Failure.lockfile state path diff).message = path.text ++ state.advice ↔ diff = "" := by
  have hmessage : (Failure.lockfile state path diff).message =
      path.text ++ state.advice ++ (if diff = "" then "" else ":\n" ++ diff) := rfl
  rw [hmessage, ← String.toList_inj, String.toList_append, List.append_right_eq_self]
  by_cases hempty : diff = ""
  · simp [hempty]
  · simp [hempty]

/-- The difference of two texts is empty only if they are equal, so that no lockfile is called
missing or stale without a visible difference, and an unwanted one only if it is empty. -/
theorem difference_visible (before after : Option String) :
    (difference path before after = "" ↔ before.getD "" = after.getD "") ∧
    ((syncAt mode path w r t).result = .error (.lockfile state place diff) →
      ∃ found, contents (t.read path) = .ok found ∧ place = path ∧
        diff = difference path found (render w r) ∧ Shown found diff state ∧
        ((Failure.lockfile state place diff).message = path.text ++ state.advice ↔ diff = "")) := by
  refine ⟨difference_eq_empty_iff, ?_⟩
  intro h
  obtain ⟨found, hfound, hcomplaint, rfl, rfl⟩ := syncAt_complains h
  exact ⟨found, hfound, rfl, rfl, shown_of_complaint hcomplaint, message_eq_advice_iff⟩

/-- A lockfile whose last line was not ended. -/
def unendedTree : Tree where
  entries := [(["orders.lock"], .file (header ++ "shop:api (1.0.0, 1.x.x)").toUTF8)]

theorem difference_visible_unended :
    let path : Path := ⟨0, ["orders.lock"]⟩
    let w : Workspace := {}
    let r : Report := .of [.ofFields ⟨"shop", "api", "1.0.0", "1.x.x", none, false⟩ rfl]
    let diff := "@@ -1,2 +1,2 @@\n # Run `productdeps resolve --write-locks` to regenerate this file\n" ++
      "-shop:api (1.0.0, 1.x.x)\n+shop:api (1.0.0, 1.x.x)"
    (syncAt .check path w r unendedTree).result = .error (.lockfile .stale path diff) ∧
      ∃ found, contents (unendedTree.read path) = .ok found ∧
        diff = difference path found (render w r) ∧ diff ≠ "" := by
  intro path w r diff
  have hrefused : ∃ f, (syncAt .check path w r unendedTree).result = .error f ∧
      f = .lockfile .stale path diff := by decide +kernel
  obtain ⟨_, hresult, rfl⟩ := hrefused
  obtain ⟨found, hfound, -, hdiff, hshown, -⟩ := (difference_visible none none).2 hresult
  exact ⟨hresult, found, hfound, hdiff, hshown⟩

end ProductLock.Lockfile
