import Mathlib.Data.List.TakeWhile
import ProductLock.Diff.Unified
import ProductLock.Proofs.Diff.Script
import ProductLock.Proofs.Text.Lines

namespace ProductLock.Diff

theorem hunksFrom_ne_nil (h : Hunk) (es : List Edit) : hunksFrom h es ≠ [] := by
  fun_induction hunksFrom h es with
  | case1 | case2 | case3 => exact List.cons_ne_nil _ _
  | case4 h ls es _ _ ih => exact ih
  | case5 h e es _ _ ih => exact ih

theorem hunks_eq_nil_iff {es : List Edit} : hunks es = [] ↔ es = [] ∨ ∃ ls, es = [.keep ls] := by
  cases es with
  | nil => simp [hunks]
  | cons e es =>
    cases e with
    | change old new => simp [hunks, hunksFrom_ne_nil]
    | keep ls =>
      cases es with
      | nil => simp [hunks]
      | cons e es => simp [hunks, hunksFrom_ne_nil]

/-- There is no hunk exactly between equal texts. -/
theorem hunks_script_eq_nil_iff {old new : List String} :
    hunks (script old new) = [] ↔ old = new := by
  rw [hunks_eq_nil_iff]
  constructor
  · intro h
    have hsame : (script old new).flatMap Edit.old = (script old new).flatMap Edit.new := by
      rcases h with heq | ⟨ls, heq⟩
      · rw [heq]
        rfl
      · rw [heq]
        rfl
    rwa [script_old, script_new] at hsame
  · intro h
    subst h
    by_cases hnil : old = []
    · subst hnil
      exact .inl rfl
    · exact .inr ⟨old, script_self hnil⟩

theorem dropFinalBreaks_eq_empty {s : String} :
    dropFinalBreaks s = "" ↔ ∀ c ∈ s.toList, c = '\n' := by
  rw [dropFinalBreaks, String.ofList_eq_empty_iff]
  simp [List.dropWhile_eq_nil_iff]

theorem mem_endLine {line : String} {c : Char} (h : c ∈ line.toList) : c ∈ (endLine line).toList := by
  rw [endLine]
  split
  · exact h
  · rw [String.toList_append]
    exact List.mem_append_left _ h

theorem at_mem_header (h : Hunk) : '@' ∈ h.header.toList := by
  simp [Hunk.header]

/-- What is printed of hunks keeps their headers, which are no line breaks. -/
theorem printed_eq_empty_iff {hs : List Hunk} :
    dropFinalBreaks (String.join ((hs.flatMap Hunk.lines).map endLine)) = "" ↔ hs = [] := by
  constructor
  · intro h
    cases hs with
    | nil => rfl
    | cons hunk hs =>
      rw [dropFinalBreaks_eq_empty] at h
      have hmem : '@' ∈ (String.join (((hunk :: hs).flatMap Hunk.lines).map endLine)).toList := by
        rw [String.toList_join, List.flatMap_cons, Hunk.lines, List.cons_append, List.map_cons,
          List.flatMap_cons]
        exact List.mem_append_left _ (mem_endLine (at_mem_header hunk))
      exact absurd (h '@' hmem) (by decide)
  · intro h
    subst h
    rfl

theorem unified_eq_empty_iff {old new : String} : unified old new = "" ↔ old = new := by
  rw [unified, printed_eq_empty_iff, hunks_script_eq_nil_iff, Text.map_text_inj]

end ProductLock.Diff
