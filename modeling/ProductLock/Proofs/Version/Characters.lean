import ProductLock.Proofs.Version.Grammar

namespace ProductLock.Version

/-- The characters that versions and matchers are made of. -/
def isPlain (c : Char) : Bool :=
  isTagChar c || c == '.'

def Plain (cs : List Char) : Prop :=
  ∀ c ∈ cs, isPlain c = true

theorem plain_append {cs ds : List Char} : Plain (cs ++ ds) ↔ Plain cs ∧ Plain ds :=
  List.forall_mem_append

theorem plain_cons {c : Char} {cs : List Char} : Plain (c :: cs) ↔ isPlain c = true ∧ Plain cs :=
  List.forall_mem_cons

theorem plain_nil : Plain [] :=
  fun _ h => nomatch h

theorem isTagChar_of_isDigit {c : Char} (h : c.isDigit = true) : isTagChar c = true := by
  simp [isTagChar, h]

theorem isPlain_of_isTagChar {c : Char} (h : isTagChar c = true) : isPlain c = true := by
  simp [isPlain, h]

theorem isPlain_of_isDigit {c : Char} (h : c.isDigit = true) : isPlain c = true :=
  isPlain_of_isTagChar (isTagChar_of_isDigit h)

theorem isTagChar_of_isHashChar {c : Char} (h : isHashChar c = true) : isTagChar c = true := by
  simp only [isHashChar, Bool.or_eq_true, Bool.and_eq_true, decide_eq_true_eq] at h
  rcases h with h | ⟨ha, hf⟩
  · exact isTagChar_of_isDigit h
  · have hz : c ≤ 'z' := Char.le_trans hf (by decide)
    have hlower : c.isLower = true :=
      Bool.and_eq_true_iff.mpr ⟨decide_eq_true ha, decide_eq_true hz⟩
    simp [isTagChar, hlower]

theorem plain_write (n : Nat) : Plain (Numeral.write n) :=
  fun _ h => isPlain_of_isDigit (Numeral.isDigit_of_mem_write h)

/-- What follows the numbers of an orderable version is a tag. -/
theorem Stage.Proper.tagged {stage : Stage} (h : stage.Proper) :
    stage.write = [] ∨
      ∃ tag, stage.write = '-' :: tag ∧ tag ≠ [] ∧ ∀ c ∈ tag, isTagChar c = true := by
  have hnumber (n : Nat) : ∀ c ∈ Numeral.write n, isTagChar c = true :=
    fun _ hc => isTagChar_of_isDigit (Numeral.isDigit_of_mem_write hc)
  have hword {word : List Char} (hall : word.all isTagChar = true) :
      ∀ c ∈ word, isTagChar c = true := List.all_eq_true.mp hall
  cases stage with
  | release => exact .inl rfl
  | beta n =>
    refine .inr ⟨"beta".toList ++ Numeral.write n, rfl, by simp, ?_⟩
    exact List.forall_mem_append.mpr ⟨hword rfl, hnumber n⟩
  | rc n =>
    refine .inr ⟨"rc".toList ++ Numeral.write n, rfl, by simp, ?_⟩
    exact List.forall_mem_append.mpr ⟨hword rfl, hnumber n⟩
  | commits n hash =>
    refine .inr ⟨Numeral.write n ++ "-g".toList ++ hash.toList, by simp [Stage.write], by simp, ?_⟩
    rw [List.forall_mem_append, List.forall_mem_append]
    refine ⟨⟨hnumber n, hword rfl⟩, fun c hc => ?_⟩
    exact isTagChar_of_isHashChar (List.all_eq_true.mp h.2 c hc)

theorem plain_stage {stage : Stage} (h : stage.Proper) : Plain stage.write := by
  rcases h.tagged with hnil | ⟨tag, hcons, -, htag⟩
  · rw [hnil]
    exact plain_nil
  · rw [hcons, plain_cons]
    exact ⟨rfl, fun c hc => isPlain_of_isTagChar (htag c hc)⟩

theorem plain_of_orderable {s : String} (h : isOrderable s = true) : Plain s.toList := by
  obtain ⟨v, h⟩ := Option.isSome_iff_exists.mp h
  obtain ⟨hproper, rfl⟩ := orderable_ok.mp h
  rw [v.toList_text]
  simp [plain_append, plain_cons, plain_write, plain_stage hproper, isPlain]

theorem plain_component (k : Component) : Plain k.write := by
  cases k with
  | number n => exact plain_write n
  | any => simp [Component.write, plain_cons, plain_nil, isPlain, isTagChar]

theorem plain_of_isMatcher {s : String} (h : isMatcher s = true) : Plain s.toList := by
  obtain ⟨m, hm⟩ := Option.isSome_iff_exists.mp h
  rw [text_of_matcher hm, m.toList_text]
  simp [plain_append, plain_cons, plain_component, isPlain]

theorem of_skipDigits {cs rest : List Char} (h : skipDigits cs = some rest) :
    ∃ ds, cs = ds ++ rest ∧ Plain ds := by
  unfold skipDigits at h
  split at h
  · contradiction
  · cases h
    refine ⟨cs.takeWhile Char.isDigit, List.takeWhile_append_dropWhile.symm, ?_⟩
    intro c hc
    exact isPlain_of_isDigit (List.all_eq_true.mp List.all_takeWhile c hc)

theorem plain_of_isDirtyMark {cs : List Char} (h : isDirtyMark cs = true) : Plain cs := by
  simp only [isDirtyMark, Bool.or_eq_true, beq_iff_eq] at h
  rcases h with rfl | rfl
  · exact plain_nil
  · have hall : ".dirty".toList.all isPlain = true := rfl
    exact List.all_eq_true.mp hall

theorem plain_of_isLooseSuffix {cs : List Char} (h : isLooseSuffix cs = true) : Plain cs := by
  unfold isLooseSuffix at h
  split at h
  · next cs =>
    obtain ⟨_, hdirty⟩ := Bool.and_eq_true_iff.mp h
    have htag : Plain (cs.takeWhile isTagChar) := fun c hc =>
      isPlain_of_isTagChar (List.all_eq_true.mp List.all_takeWhile c hc)
    rw [plain_cons, ← List.takeWhile_append_dropWhile (p := isTagChar) (l := cs), plain_append]
    exact ⟨rfl, htag, plain_of_isDirtyMark hdirty⟩
  · exact plain_of_isDirtyMark h

theorem plain_of_isNonOrderable {s : String} (h : isNonOrderable s = true) : Plain s.toList := by
  unfold isNonOrderable at h
  split at h
  · next rest hread =>
    simp only [Option.bind_eq_bind, Option.bind_eq_some_iff] at hread
    obtain ⟨cs₁, h₁, cs₂, hdot₁, cs₃, h₂, cs₄, hdot₂, h₃⟩ := hread
    obtain ⟨ds₁, hs₁, hp₁⟩ := of_skipDigits h₁
    obtain ⟨ds₂, hs₂, hp₂⟩ := of_skipDigits h₂
    obtain ⟨ds₃, hs₃, hp₃⟩ := of_skipDigits h₃
    rw [hs₁, expect_ok.mp hdot₁, hs₂, expect_ok.mp hdot₂, hs₃]
    simp [plain_append, plain_cons, hp₁, hp₂, hp₃, plain_of_isLooseSuffix h, isPlain]
  · contradiction

theorem plain_of_isValid {s : String} (h : isValid s = true) : Plain s.toList := by
  rcases Bool.or_eq_true_iff.mp h with h | h
  · exact plain_of_orderable h
  · exact plain_of_isNonOrderable h

theorem plain_of_isValidOrMatcher {s : String} (h : isValidOrMatcher s = true) :
    Plain s.toList := by
  rcases Bool.or_eq_true_iff.mp h with h | h
  · exact plain_of_isValid h
  · exact plain_of_isMatcher h

theorem ne_nil_of_isValidOrMatcher {s : String} (h : isValidOrMatcher s = true) :
    s.toList ≠ [] := by
  intro hs
  rw [String.toList_eq_nil_iff.mp hs] at h
  exact absurd h (by decide)

end ProductLock.Version
