import ProductLock.Diff.Script

namespace ProductLock.Diff

variable {popular old new : List String} {i j : Nat} {best : Block}

theorem commonLength_le (as bs : List String) :
    commonLength as bs ≤ as.length ∧ commonLength as bs ≤ bs.length := by
  fun_induction commonLength as bs with
  | case1 a as bs ih =>
    simp only [List.length_cons]
    omega
  | case2 a as b bs hne => simp
  | case3 => simp

theorem getElem?_commonLength {as bs : List String} {m : Nat} (h : m < commonLength as bs) :
    as[m]? = bs[m]? := by
  fun_induction commonLength as bs generalizing m with
  | case1 a as bs ih =>
    cases m with
    | zero => rfl
    | succ m => exact ih (by omega)
  | case2 a as b bs hne => contradiction
  | case3 => contradiction

theorem commonLength_self (as : List String) : commonLength as as = as.length := by
  induction as with
  | nil => rfl
  | cons a as ih => rw [commonLength, if_pos rfl, ih, List.length_cons]

/-- Whether two lines are the same and can anchor a match. -/
def Anchors (popular : List String) (a b : Option String) : Prop :=
  a = b ∧ ∃ line, b = some line ∧ line ∉ popular

instance decidableAnchors (popular : List String) (a b : Option String) :
    Decidable (Anchors popular a b) :=
  match b with
  | none => .isFalse nofun
  | some line => decidable_of_iff (a = some line ∧ line ∉ popular) (by simp [Anchors])

/-- The length of the longest run of anchors that ends in front of a place in either text. -/
def runTo (popular old new : List String) : Nat → Nat → Nat
  | i + 1, j + 1 => if Anchors popular old[i]? new[j]? then runTo popular old new i j + 1 else 0
  | _, _ => 0

theorem runTo_le (popular old new : List String) (i j : Nat) :
    runTo popular old new i j ≤ i ∧ runTo popular old new i j ≤ j := by
  fun_induction runTo popular old new i j with
  | case1 i j _ ih => omega
  | case2 => omega
  | case3 => omega

theorem runTo_zero (popular old new : List String) (i : Nat) : runTo popular old new i 0 = 0 := by
  cases i <;> rfl

theorem le_of_runTo (h : 0 < runTo popular old new i j) : i ≤ old.length ∧ j ≤ new.length := by
  fun_induction runTo popular old new i j with
  | case1 i j hanchors ih =>
    obtain ⟨heq, line, hline, _⟩ := hanchors
    obtain ⟨hi, _⟩ := List.getElem?_eq_some_iff.mp (heq.trans hline)
    obtain ⟨hj, _⟩ := List.getElem?_eq_some_iff.mp hline
    exact ⟨hi, hj⟩
  | case2 => contradiction
  | case3 => contradiction

/-- The lines of a run are the same in both texts. -/
theorem getElem?_runTo {m : Nat} (h : m < runTo popular old new i j) :
    old[i - runTo popular old new i j + m]? = new[j - runTo popular old new i j + m]? := by
  fun_induction runTo popular old new i j with
  | case1 i j hanchors ih =>
    have hle := runTo_le popular old new i j
    rw [Nat.succ_eq_add_one, Nat.succ_eq_add_one, Nat.add_sub_add_right, Nat.add_sub_add_right]
    rcases Nat.lt_succ_iff_lt_or_eq.mp h with hlt | rfl
    · exact ih hlt
    · rw [Nat.sub_add_cancel hle.1, Nat.sub_add_cancel hle.2]
      exact hanchors.1
  | case2 => contradiction
  | case3 => contradiction

/-- No run is longer than the one that a text shares with itself. -/
theorem runTo_le_left (popular ls : List String) (i j : Nat) :
    runTo popular ls ls i j ≤ runTo popular ls ls i i := by
  fun_induction runTo popular ls ls i j with
  | case1 i j hanchors ih =>
    have hself : Anchors popular ls[i]? ls[i]? := ⟨rfl, by rw [hanchors.1]; exact hanchors.2⟩
    rw [runTo, if_pos hself]
    omega
  | case2 => omega
  | case3 => omega

theorem runTo_le_right (popular ls : List String) (i j : Nat) :
    runTo popular ls ls i j ≤ runTo popular ls ls j j := by
  fun_induction runTo popular ls ls i j with
  | case1 i j hanchors ih =>
    rw [runTo, if_pos ⟨rfl, hanchors.2⟩]
    omega
  | case2 => omega
  | case3 => omega

/-- The runs that end at each line of the new text and at the line of the old one in front of a
place. -/
def rowTo (popular old new : List String) (i : Nat) : List Nat :=
  (List.range new.length).map fun j => runTo popular old new i (j + 1)

@[simp] theorem length_rowTo (popular old new : List String) (i : Nat) :
    (rowTo popular old new i).length = new.length := by
  simp [rowTo]

@[simp] theorem getElem_rowTo (h : j < (rowTo popular old new i).length) :
    (rowTo popular old new i)[j] = runTo popular old new i (j + 1) := by
  simp [rowTo]

theorem rowTo_zero (popular old new : List String) :
    rowTo popular old new 0 = new.map fun _ => 0 := by
  apply List.ext_getElem
  · simp
  · intro j h₁ h₂
    simp [runTo]

theorem getElem_cons_rowTo (h : j < (0 :: rowTo popular old new i).length) :
    (0 :: rowTo popular old new i)[j] = runTo popular old new i j := by
  cases j with
  | zero => rw [runTo_zero, List.getElem_cons_zero]
  | succ j => rw [List.getElem_cons_succ, getElem_rowTo]

/-- Each row of runs comes from the row in front of it. -/
theorem nextRow_rowTo {line : String} (h : old[i]? = some line) :
    nextRow popular new line (rowTo popular old new i) = rowTo popular old new (i + 1) := by
  have hrun (j : Nat) (hj : j < new.length) : runTo popular old new (i + 1) (j + 1) =
      if new[j] = line ∧ line ∉ popular then runTo popular old new i j + 1 else 0 := by
    have hanchors : Anchors popular old[i]? new[j]? ↔ new[j] = line ∧ line ∉ popular := by
      rw [h, List.getElem?_eq_getElem hj, Anchors]
      simp only [Option.some.injEq, exists_eq_left', eq_comm (a := line)]
      apply and_congr_right
      intro heq
      rw [heq]
    simp only [runTo, hanchors]
  apply List.ext_getElem
  · rw [nextRow]
    split <;> simp
  · intro j h₁ h₂
    rw [length_rowTo] at h₂
    rw [getElem_rowTo, hrun j h₂]
    by_cases hpopular : line ∈ popular
    · simp [nextRow, hpopular]
    · simp [nextRow, hpopular, getElem_cons_rowTo]

/-- Places in two texts are looked at row by row. -/
def Upto (i j i' j' : Nat) : Prop :=
  i < i' ∨ i = i' ∧ j ≤ j'

theorem upto_refl (i j : Nat) : Upto i j i j :=
  .inr ⟨rfl, Nat.le_refl j⟩

theorem upto_zero (i j : Nat) : Upto 0 0 i j := by
  unfold Upto
  omega

theorem upto_succ {i j i' j' : Nat} :
    Upto i j i' (j' + 1) ↔ Upto i j i' j' ∨ i = i' ∧ j = j' + 1 := by
  unfold Upto
  omega

/-- A block is the longest run of anchors among those that end up to a place, and of the longest
ones the first. -/
structure Longest (popular old new : List String) (i j : Nat) (best : Block) : Prop where
  run : runTo popular old new (best.old + best.size) (best.new + best.size) = best.size
  start : best.size = 0 → best = ⟨0, 0, 0⟩
  reached : Upto (best.old + best.size) (best.new + best.size) i j
  first : ∀ i' j', Upto i' j' i j → runTo popular old new i' j' < best.size ∨
    runTo popular old new i' j' = best.size ∧ Upto (best.old + best.size) (best.new + best.size) i' j'

theorem longest_start (popular old new : List String) :
    Longest popular old new 0 new.length ⟨0, 0, 0⟩ := by
  refine ⟨rfl, fun _ => rfl, .inr ⟨rfl, Nat.zero_le _⟩, ?_⟩
  intro i j hij
  have hi : i = 0 := by
    unfold Upto at hij
    omega
  rw [hi]
  exact .inr ⟨rfl, upto_zero 0 j⟩

/-- No run is too short for the block that a search starts with. -/
theorem Longest.first_of_zero (h : Longest popular old new i j best) {i' j' : Nat}
    (hnone : runTo popular old new i' j' = 0) : runTo popular old new i' j' < best.size ∨
      runTo popular old new i' j' = best.size ∧
        Upto (best.old + best.size) (best.new + best.size) i' j' := by
  rw [hnone]
  rcases Nat.eq_zero_or_pos best.size with hzero | hpos
  · rw [h.start hzero]
    exact .inr ⟨rfl, upto_zero i' j'⟩
  · exact .inl hpos

/-- At the end of a row, nothing that ends further on in it is a run. -/
theorem Longest.next (h : Longest popular old new i new.length best) :
    Longest popular old new (i + 1) 0 best := by
  refine ⟨h.run, h.start, ?_, ?_⟩
  · have hreached := h.reached
    unfold Upto at *
    omega
  · intro i' j' hij
    by_cases hin : Upto i' j' i new.length
    · exact h.first i' j' hin
    · apply h.first_of_zero
      apply Nat.eq_zero_of_not_pos
      intro hsome
      have hle := le_of_runTo hsome
      have hj := (runTo_le popular old new i' j').2
      unfold Upto at *
      omega

/-- A longer run that ends at the next place takes over. -/
theorem Longest.taken {block : Block} (h : Longest popular old new i j best)
    (hold : block.old + block.size = i) (hnew : block.new + block.size = j + 1)
    (hrun : runTo popular old new i (j + 1) = block.size) (hlonger : best.size < block.size) :
    Longest popular old new i (j + 1) block := by
  refine ⟨by rw [hold, hnew, hrun], by omega, by rw [hold, hnew]; exact upto_refl i (j + 1), ?_⟩
  intro i' j' hij
  rcases upto_succ.mp hij with hseen | hplace
  · have hfirst := h.first i' j' hseen
    exact .inl (by omega)
  · obtain ⟨rfl, rfl⟩ := hplace
    exact .inr ⟨hrun, by rw [hold, hnew]; exact upto_refl i' (j + 1)⟩

/-- A run that ends at the next place and is no longer does not. -/
theorem Longest.kept (h : Longest popular old new i j best)
    (hshort : runTo popular old new i (j + 1) ≤ best.size) :
    Longest popular old new i (j + 1) best := by
  have hreached : Upto (best.old + best.size) (best.new + best.size) i (j + 1) :=
    upto_succ.mpr (.inl h.reached)
  refine ⟨h.run, h.start, hreached, ?_⟩
  intro i' j' hij
  rcases upto_succ.mp hij with hseen | hplace
  · exact h.first i' j' hseen
  · obtain ⟨rfl, rfl⟩ := hplace
    rcases Nat.lt_or_eq_of_le hshort with hlt | heq
    · exact .inl hlt
    · exact .inr ⟨heq, hreached⟩

/-- The better one of a block and the run of a length that ends at a place. -/
def Block.orRun (best : Block) (i j k : Nat) : Block :=
  if k > best.size then ⟨i - k, j - k, k⟩ else best

theorem Longest.orRun (h : Longest popular old new i j best) :
    Longest popular old new i (j + 1) (best.orRun i (j + 1) (runTo popular old new i (j + 1))) := by
  have hle := runTo_le popular old new i (j + 1)
  rw [Block.orRun]
  split
  · next hlonger =>
    exact h.taken (Nat.sub_add_cancel hle.1) (Nat.sub_add_cancel hle.2) rfl hlonger
  · next hshort => exact h.kept (Nat.le_of_not_lt hshort)

/-- From one place of a row to the end of it. -/
theorem Longest.foldl_row (row : List Nat)
    (hrow : ∀ m (hm : m < row.length), row[m] = runTo popular old new (i + 1) (j + m + 1))
    (h : Longest popular old new (i + 1) j best) :
    Longest popular old new (i + 1) (j + row.length)
      ((row.zipIdx j).foldl (fun best run => best.orRun (i + 1) (run.2 + 1) run.1) best) := by
  induction row generalizing j best with
  | nil => exact h
  | cons k row ih =>
    rw [List.zipIdx_cons, List.foldl_cons, List.length_cons, Nat.add_comm row.length 1,
      ← Nat.add_assoc]
    apply ih
    · intro m hm
      have hnext := hrow (m + 1) (Nat.succ_lt_succ hm)
      rw [List.getElem_cons_succ] at hnext
      rw [hnext, Nat.add_right_comm j 1 m, Nat.add_assoc j m 1]
    · have hk : k = runTo popular old new (i + 1) (j + 1) := hrow 0 (Nat.zero_lt_succ _)
      dsimp only
      rw [hk]
      exact h.orRun

theorem Longest.row (h : Longest popular old new i new.length best) :
    Longest popular old new (i + 1) new.length
      (bestOfRow i (rowTo popular old new (i + 1)) best) := by
  have hrow := Longest.foldl_row (rowTo popular old new (i + 1)) (by simp) h.next
  rw [length_rowTo, Nat.zero_add] at hrow
  exact hrow

theorem Longest.rows {rest : List String} (hrest : old.drop i = rest) (hi : i ≤ old.length)
    (h : Longest popular old new i new.length best) :
    Longest popular old new old.length new.length
      (longestFrom popular new rest i (rowTo popular old new i) best) := by
  -- `rest` are the lines that are still to be looked at; the row in front of them is known.
  induction rest generalizing i best with
  | nil =>
    rw [List.drop_eq_nil_iff] at hrest
    obtain rfl : i = old.length := Nat.le_antisymm hi hrest
    exact h
  | cons line rest ih =>
    have hlt : i < old.length := by
      apply Nat.lt_of_not_le
      intro hle
      rw [List.drop_eq_nil_of_le hle] at hrest
      contradiction
    rw [List.drop_eq_getElem_cons hlt] at hrest
    obtain ⟨hline, hdrop⟩ := List.cons.inj hrest
    have hget : old[i]? = some line := by rw [List.getElem?_eq_getElem hlt, hline]
    simp only [longestFrom, nextRow_rowTo hget]
    exact ih hdrop hlt h.row

/-- The search finds the first of the longest runs of anchors that two texts share. -/
theorem longest_longestFrom (popular old new : List String) :
    Longest popular old new old.length new.length
      (longestFrom popular new old 0 (new.map fun _ => 0) ⟨0, 0, 0⟩) := by
  rw [← rowTo_zero popular old new]
  exact (longest_start popular old new).rows rfl (Nat.zero_le _)

theorem Longest.bounds (h : Longest popular old new old.length new.length best) :
    best.old + best.size ≤ old.length ∧ best.new + best.size ≤ new.length := by
  rcases Nat.eq_zero_or_pos best.size with hzero | hpos
  · rw [h.start hzero]
    exact ⟨Nat.zero_le _, Nat.zero_le _⟩
  · rw [← h.run] at hpos
    exact le_of_runTo hpos

/-- The lines of a block are the same in both texts. -/
def Block.Shared (b : Block) (old new : List String) : Prop :=
  ∀ m < b.size, old[b.old + m]? = new[b.new + m]?

theorem Longest.shared (h : Longest popular old new i j best) : best.Shared old new := by
  intro m hm
  rw [← h.run] at hm
  have hequal := getElem?_runTo hm
  rwa [h.run, Nat.add_sub_cancel, Nat.add_sub_cancel] at hequal

theorem getElem?_reverse_take {ls : List String} {p m : Nat} (hp : p ≤ ls.length) (hm : m < p) :
    (ls.take p).reverse[m]? = ls[p - 1 - m]? := by
  have hlength : (ls.take p).length = p := by rw [List.length_take, Nat.min_eq_left hp]
  rw [List.getElem?_reverse (by omega), hlength, List.getElem?_take_of_lt (by omega)]

/-- A block may be extended over the equal lines in front of it. -/
theorem Block.Shared.back {p q s k : Nat} (h : Block.Shared ⟨p, q, s⟩ old new)
    (hp : p ≤ old.length) (hq : q ≤ new.length)
    (hk : k = commonLength (old.take p).reverse (new.take q).reverse) :
    Block.Shared ⟨p - k, q - k, k + s⟩ old new := by
  have hle := commonLength_le (old.take p).reverse (new.take q).reverse
  rw [← hk, List.length_reverse, List.length_reverse, List.length_take, List.length_take] at hle
  intro m hm
  dsimp only at hm ⊢
  rcases Nat.lt_or_ge m k with hbefore | hafter
  · have hequal : (old.take p).reverse[k - 1 - m]? = (new.take q).reverse[k - 1 - m]? :=
      getElem?_commonLength (by omega)
    have hplace (n : Nat) (hn : k ≤ n) : n - 1 - (k - 1 - m) = n - k + m := by omega
    rwa [getElem?_reverse_take hp (by omega), getElem?_reverse_take hq (by omega),
      hplace p (by omega), hplace q (by omega)] at hequal
  · have hplace (n : Nat) (hn : k ≤ n) : n - k + m = n + (m - k) := by omega
    rw [hplace p (by omega), hplace q (by omega)]
    apply h
    dsimp only
    omega

/-- A block may be extended over the equal lines after it. -/
theorem Block.Shared.ahead {p q s k : Nat} (h : Block.Shared ⟨p, q, s⟩ old new)
    (hk : k = commonLength (old.drop (p + s)) (new.drop (q + s))) :
    Block.Shared ⟨p, q, s + k⟩ old new := by
  intro m hm
  dsimp only at hm ⊢
  rcases Nat.lt_or_ge m s with hwithin | hbeyond
  · exact h m hwithin
  · have hequal : (old.drop (p + s))[m - s]? = (new.drop (q + s))[m - s]? :=
      getElem?_commonLength (by omega)
    rwa [List.getElem?_drop, List.getElem?_drop, Nat.add_assoc, Nat.add_assoc,
      Nat.add_sub_cancel' hbeyond] at hequal

theorem longestBlock_shared (popular old new : List String) :
    (longestBlock popular old new).Shared old new := by
  have hlongest := longest_longestFrom popular old new
  unfold longestBlock
  generalize longestFrom popular new old 0 (new.map fun _ => 0) ⟨0, 0, 0⟩ = core at *
  obtain ⟨hold, hnew⟩ := hlongest.bounds
  dsimp only
  have hle := commonLength_le (old.take core.old).reverse (new.take core.new).reverse
  rw [List.length_reverse, List.length_reverse, List.length_take, List.length_take] at hle
  apply (hlongest.shared.back (by omega) (by omega) rfl).ahead
  rw [← Nat.add_assoc, ← Nat.add_assoc, Nat.sub_add_cancel (by omega),
    Nat.sub_add_cancel (by omega)]

theorem longestBlock_le (popular old new : List String) :
    (longestBlock popular old new).old + (longestBlock popular old new).size ≤ old.length := by
  have hlongest := longest_longestFrom popular old new
  unfold longestBlock
  generalize longestFrom popular new old 0 (new.map fun _ => 0) ⟨0, 0, 0⟩ = core at *
  obtain ⟨hold, _⟩ := hlongest.bounds
  have hback := (commonLength_le (old.take core.old).reverse (new.take core.new).reverse).1
  have hahead := (commonLength_le (old.drop (core.old + core.size))
    (new.drop (core.new + core.size))).1
  rw [List.length_reverse, List.length_take] at hback
  rw [List.length_drop] at hahead
  dsimp only
  omega

/-- In a text that is compared with itself, the first of the longest runs lies at the same place on
either side. -/
theorem Longest.diagonal {ls : List String} (h : Longest popular ls ls ls.length ls.length best) :
    best.old = best.new := by
  obtain ⟨hp, hq⟩ := h.bounds
  have hleft := h.first (best.old + best.size) (best.old + best.size) (by unfold Upto; omega)
  have hright := h.first (best.new + best.size) (best.new + best.size) (by unfold Upto; omega)
  have hrun := h.run
  -- The runs that the text shares with itself up to either end are no shorter, and the best run ends
  -- no later than either.
  have hlonger := runTo_le_left popular ls (best.old + best.size) (best.new + best.size)
  have hlonger' := runTo_le_right popular ls (best.old + best.size) (best.new + best.size)
  unfold Upto at *
  omega

theorem longestBlock_self (popular ls : List String) :
    longestBlock popular ls ls = ⟨0, 0, ls.length⟩ := by
  have hlongest := longest_longestFrom popular ls ls
  have hbounds := hlongest.bounds
  simp only [longestBlock, ← hlongest.diagonal, commonLength_self, List.length_reverse,
    List.length_take, List.length_drop, Block.mk.injEq]
  omega

end ProductLock.Diff
