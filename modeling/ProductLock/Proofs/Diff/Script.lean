import ProductLock.Proofs.Diff.Block

namespace ProductLock.Diff

variable {popular old new : List String}

/-- Joining runs of kept lines and leaving out empty changes takes nothing from what the edits stand
for in a text. -/
theorem flatMap_foldr_cons {side : Edit → List String} (hnone : side (.change [] []) = [])
    (hkeep : ∀ ls ms, side (.keep (ls ++ ms)) = side (.keep ls) ++ side (.keep ms))
    (es : List Edit) : (es.foldr Edit.cons []).flatMap side = es.flatMap side := by
  have hcons (e : Edit) (es : List Edit) :
      (Edit.cons e es).flatMap side = side e ++ es.flatMap side := by
    unfold Edit.cons
    split
    · rw [hnone, List.nil_append]
    · rw [List.flatMap_cons, List.flatMap_cons, hkeep, List.append_assoc]
    · rw [List.flatMap_cons]
  induction es with
  | nil => rfl
  | cons e es ih => rw [List.foldr_cons, hcons, ih, List.flatMap_cons]

/-- A text in front of a block, the block, and what comes after it. -/
theorem take_block (ls : List String) (start size : Nat) :
    ls.take start ++ ((ls.drop start).take size ++ ls.drop (start + size)) = ls := by
  rw [← List.drop_drop, List.take_append_drop, List.take_append_drop]

theorem scriptWithin_old (popular : List String) (fuel : Nat) (old new : List String) :
    (scriptWithin popular fuel old new).flatMap Edit.old = old := by
  fun_induction scriptWithin popular fuel old new with
  | case1 | case2 | case3 => simp [Edit.old]
  | case4 fuel old new hne block hblock before after =>
    rw [List.flatMap_append, List.flatMap_cons, before, after, Edit.old, take_block]

theorem Block.Shared.slice {b : Block} (h : b.Shared old new) :
    (old.drop b.old).take b.size = (new.drop b.new).take b.size := by
  apply List.ext_getElem?
  intro m
  simp only [List.getElem?_take, List.getElem?_drop]
  split
  · next hm => exact h m hm
  · rfl

theorem scriptWithin_new (popular : List String) (fuel : Nat) (old new : List String) :
    (scriptWithin popular fuel old new).flatMap Edit.new = new := by
  fun_induction scriptWithin popular fuel old new with
  | case1 | case2 | case3 => simp [Edit.new]
  | case4 fuel old new hne block hblock before after =>
    have hshared : block.Shared old new := longestBlock_shared popular old new
    rw [List.flatMap_append, List.flatMap_cons, before, after, Edit.new, hshared.slice, take_block]

/-- A script goes no deeper than the old text is long. -/
theorem scriptWithin_of_length_le {fuel : Nat} (h : old.length ≤ fuel) :
    scriptWithin popular (fuel + 1) old new = scriptWithin popular fuel old new := by
  induction fuel generalizing old new with
  | zero =>
    rw [List.eq_nil_of_length_eq_zero (Nat.le_zero.mp h)]
    rfl
  | succ fuel ih =>
    have hle := longestBlock_le popular old new
    rw [scriptWithin, scriptWithin]
    split
    · rfl
    · dsimp only
      split
      · rfl
      · next hsize =>
        rw [ih, ih]
        · rw [List.length_drop]
          omega
        · rw [List.length_take]
          omega

/-- What a script keeps and what it takes away is the old text. -/
theorem script_old (old new : List String) : (script old new).flatMap Edit.old = old := by
  rw [script, flatMap_foldr_cons rfl (fun _ _ => rfl), scriptWithin_old]

/-- What a script keeps and what it adds is the new text. -/
theorem script_new (old new : List String) : (script old new).flatMap Edit.new = new := by
  rw [script, flatMap_foldr_cons rfl (fun _ _ => rfl), scriptWithin_new]

theorem scriptWithin_nil (popular : List String) (fuel : Nat) :
    scriptWithin popular fuel [] [] = [.change [] []] := by
  cases fuel <;> rfl

/-- A text that is compared with itself is kept as a whole. -/
theorem script_self {ls : List String} (h : ls ≠ []) : script ls ls = [.keep ls] := by
  have hpos : ls.length ≠ 0 := mt List.length_eq_zero_iff.mp h
  obtain ⟨fuel, hfuel⟩ := Nat.exists_eq_succ_of_ne_zero hpos
  have hwithin : scriptWithin (popularLines ls) ls.length ls ls =
      [.change [] [], .keep ls, .change [] []] := by
    rw [hfuel, scriptWithin, if_neg (by simp [h]), longestBlock_self]
    simp only [if_neg hpos, List.take_zero, List.drop_zero, Nat.zero_add, List.take_length,
      List.drop_length, scriptWithin_nil, List.cons_append, List.nil_append]
  rw [script, hwithin]
  rfl

end ProductLock.Diff
