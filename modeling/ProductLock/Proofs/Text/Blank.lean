import Mathlib.Data.List.TakeWhile
import ProductLock.Text.Blank

namespace ProductLock.Text

variable {separator : Char} {cs ds group name : List Char} {s core : String}

theorem pieces_eq_splitOn (separator : Char) (cs : List Char) :
    pieces separator cs = cs.splitOn separator := by
  induction cs with
  | nil => rfl
  | cons c cs ih =>
    rw [pieces, List.splitOn_cons_eq_if_modifyHead, ih]
    by_cases hc : c = separator
    · simp [hc]
    · obtain ⟨p, ps, hps⟩ := List.exists_cons_of_ne_nil (List.splitOn_ne_nil separator cs)
      simp [hc, hps]

theorem pieces_of_not_mem (h : separator ∉ cs) : pieces separator cs = [cs] := by
  rw [pieces_eq_splitOn, List.splitOn_eq_singleton h]

/-- The first separator ends the first piece. -/
theorem pieces_append (h : separator ∉ cs) :
    pieces separator (cs ++ separator :: ds) = cs :: pieces separator ds := by
  rw [pieces_eq_splitOn, pieces_eq_splitOn, List.splitOn_append_cons_self_of_not_mem h]

/-- Two pieces come of one separator. -/
theorem pieces_pair : pieces separator cs = [group, name] ↔
    cs = group ++ separator :: name ∧ separator ∉ group ∧ separator ∉ name := by
  constructor
  · intro h
    by_cases hfirst : separator ∈ cs
    · obtain ⟨first, rest, rfl, hnone⟩ := List.eq_append_cons_of_mem hfirst
      rw [pieces_append hnone] at h
      obtain ⟨rfl, hrest⟩ := List.cons.inj h
      by_cases hsecond : separator ∈ rest
      · obtain ⟨second, more, rfl, hnone'⟩ := List.eq_append_cons_of_mem hsecond
        rw [pieces_append hnone', pieces_eq_splitOn] at hrest
        exact absurd (List.cons.inj hrest).2 (List.splitOn_ne_nil separator more)
      · rw [pieces_of_not_mem hsecond] at hrest
        obtain ⟨rfl, -⟩ := List.cons.inj hrest
        exact ⟨rfl, hnone, hsecond⟩
    · rw [pieces_of_not_mem hfirst] at h
      simp at h
  · rintro ⟨rfl, hgroup, hname⟩
    rw [pieces_append hgroup, pieces_of_not_mem hname]

/-- A text without the blanks around it. -/
structure Stripped (s core : String) : Prop where
  padded : ∃ before after, s = before ++ core ++ after ∧ allBlank before = true ∧
    allBlank after = true
  front : ∀ c, core.toList.head? = some c → isBlank c = false
  back : ∀ c, core.toList.getLast? = some c → isBlank c = false

theorem allBlank_iff : allBlank s = true ↔ ∀ c ∈ s.toList, isBlank c = true :=
  List.all_eq_true

theorem dropWhile_blank (hcs : ∀ c ∈ cs, isBlank c = true)
    (hds : ∀ c, ds.head? = some c → isBlank c = false) : (cs ++ ds).dropWhile isBlank = ds := by
  rw [List.dropWhile_append_of_pos hcs]
  cases ds with
  | nil => rfl
  | cons d ds => rw [List.dropWhile_cons, if_neg (by simp [hds d rfl])]

/-- Blanks in front go, and what is left begins with none. -/
theorem dropWhile_blank_spec (cs : List Char) : ∃ before, cs = before ++ cs.dropWhile isBlank ∧
    (∀ c ∈ before, isBlank c = true) ∧
    ∀ c, (cs.dropWhile isBlank).head? = some c → isBlank c = false := by
  refine ⟨cs.takeWhile isBlank, List.takeWhile_append_dropWhile.symm, ?_, ?_⟩
  · exact List.all_eq_true.mp List.all_takeWhile
  · intro c hc
    have := List.head?_dropWhile_not isBlank cs
    rw [hc] at this
    simpa using this

/-- Trimming leaves a text without the blanks around it, and nothing else does. -/
theorem trim_eq_iff : trim s = core ↔ Stripped s core := by
  constructor
  · rintro rfl
    obtain ⟨before, hs, hbefore, hfront⟩ := dropWhile_blank_spec s.toList
    generalize htrim : s.toList.dropWhile isBlank = front at hs hfront
    obtain ⟨after, hafter, hblank, hback⟩ := dropWhile_blank_spec front.reverse
    have htoList : (trim s).toList = (front.reverse.dropWhile isBlank).reverse := by
      rw [trim, trimChars, htrim, String.toList_ofList]
    generalize front.reverse.dropWhile isBlank = back at hafter hback htoList
    have hsplit : front = back.reverse ++ after.reverse := by
      rw [← List.reverse_append, ← hafter, List.reverse_reverse]
    refine ⟨⟨String.ofList before, String.ofList after.reverse, ?_, ?_, ?_⟩, ?_, ?_⟩
    · rw [← String.toList_inj]
      simp [htoList, hs, hsplit]
    · simpa [allBlank_iff] using hbefore
    · simpa [allBlank_iff] using hblank
    · intro c hc
      rw [htoList] at hc
      exact hfront c (by rw [hsplit, List.head?_append, hc, Option.some_or])
    · intro c hc
      rw [htoList, List.getLast?_reverse] at hc
      exact hback c hc
  · rintro ⟨⟨before, after, rfl, hbefore, hafter⟩, hfront, hback⟩
    rw [allBlank_iff] at hbefore hafter
    have htrim : trimChars (before ++ core ++ after).toList = core.toList := by
      rw [trimChars, String.toList_append, String.toList_append, List.append_assoc]
      by_cases hcore : core.toList = []
      · -- Nothing is left between the blanks.
        have hall : ∀ c ∈ before.toList ++ after.toList, isBlank c = true := fun c hc =>
          (List.mem_append.mp hc).elim (hbefore c) (hafter c)
        rw [hcore, List.nil_append, List.dropWhile_eq_nil_iff.mpr hall]
        rfl
      · have hhead : ∀ c, (core.toList ++ after.toList).head? = some c → isBlank c = false := by
          obtain ⟨c, cs, hcs⟩ := List.exists_cons_of_ne_nil hcore
          simpa [hcs] using hfront
        have hlast : ∀ c, core.toList.reverse.head? = some c → isBlank c = false := by
          rwa [List.head?_reverse]
        rw [dropWhile_blank hbefore hhead, List.reverse_append,
          dropWhile_blank (fun c hc => hafter c (List.mem_reverse.mp hc)) hlast,
          List.reverse_reverse]
    rw [trim, htrim, String.ofList_toList]

theorem Stripped.trim (s : String) : Stripped s (trim s) :=
  trim_eq_iff.mp rfl

/-- Nothing is left exactly of blanks. -/
theorem allBlank_iff_stripped : allBlank s = true ↔ Stripped s "" := by
  constructor
  · intro h
    exact ⟨⟨s, "", by simp, h, rfl⟩, nofun, nofun⟩
  · rintro ⟨⟨before, after, rfl, hbefore, hafter⟩, -, -⟩
    rw [allBlank_iff] at hbefore hafter ⊢
    simpa [or_imp, forall_and] using ⟨hbefore, hafter⟩

end ProductLock.Text
