import Mathlib.Algebra.Group.Nat.Defs
import Mathlib.Data.List.TakeDrop
import ProductLock.Numeral

namespace ProductLock.Numeral

/-- The characters in front of which the reading of a numeral stops. -/
def Stops (rest : List Char) : Prop :=
  ∀ c, rest.head? = some c → c.isDigit = false

theorem stops_nil : Stops [] :=
  nofun

theorem stops_cons {c : Char} {rest : List Char} (h : c.isDigit = false) : Stops (c :: rest) := by
  intro d hd
  cases hd
  exact h

theorem isDigit_of_mem_write {n : Nat} {c : Char} (h : c ∈ write n) : c.isDigit = true :=
  Nat.isDigit_of_mem_toDigits (by omega) (by omega) h

theorem bounds_of_isDigit {c : Char} (h : c.isDigit = true) : 48 ≤ c.toNat ∧ c.toNat ≤ 57 := by
  obtain ⟨hlow, hhigh⟩ := Bool.and_eq_true_iff.mp h
  exact ⟨of_decide_eq_true hlow, of_decide_eq_true hhigh⟩

theorem digitChar_of_isDigit {c : Char} (h : c.isDigit = true) :
    c.toNat - '0'.toNat < 10 ∧ Nat.digitChar (c.toNat - '0'.toNat) = c := by
  obtain ⟨hlow, hhigh⟩ := bounds_of_isDigit h
  have hlt : c.toNat - '0'.toNat < 10 := by
    change c.toNat - 48 < 10
    omega
  refine ⟨hlt, Char.toNat_inj.mp ?_⟩
  rw [Nat.toNat_digitChar_of_lt_ten hlt]
  change 48 + (c.toNat - 48) = c.toNat
  omega

/-- Digits that follow a positive number continue its decimal writing. -/
theorem write_continued {n : Nat} (hn : 0 < n) {ds : List Char}
    (hd : ∀ c ∈ ds, c.isDigit = true) : write (Nat.ofDigitChars 10 ds n) = write n ++ ds := by
  induction ds generalizing n with
  | nil => simp
  | cons c ds ih =>
    obtain ⟨hlt, hc⟩ := digitChar_of_isDigit (hd c (by simp))
    have hstep : write (10 * n + (c.toNat - '0'.toNat)) = write n ++ [c] := by
      have happ := Nat.toDigits_append_toDigits (b := 10) (by omega) hn hlt
      rw [Nat.toDigits_of_lt_base hlt, hc] at happ
      exact happ.symm
    rw [Nat.ofDigitChars_cons, ih (by omega) (fun d h => hd d (by simp [h])), hstep]
    simp

/-- Without a leading zero, a run of digits is the writing of its value. -/
theorem write_ofDigitChars {c : Char} {ds : List Char} (hc : c.isDigit = true)
    (hd : ∀ d ∈ ds, d.isDigit = true) (hz : c = '0' → ds = []) :
    write (Nat.ofDigitChars 10 (c :: ds) 0) = c :: ds := by
  obtain ⟨hlt, hch⟩ := digitChar_of_isDigit hc
  have hone : write (c.toNat - '0'.toNat) = [c] := by
    rw [write, Nat.toDigits_of_lt_base hlt, hch]
  rw [Nat.ofDigitChars_cons, Nat.mul_zero, Nat.zero_add]
  by_cases h0 : c = '0'
  · simpa [hz h0] using hone
  · have hpos : 0 < c.toNat - '0'.toNat := by
      rcases Nat.eq_zero_or_pos (c.toNat - '0'.toNat) with h | h
      · rw [h] at hch
        exact absurd hch.symm h0
      · exact h
    rw [write_continued hpos hd, hone]
    rfl

/-- A text from which a numeral was read begins with the writing of it. -/
theorem write_of_read {cs rest : List Char} {n : Nat} (h : read cs = some (n, rest)) :
    cs = write n ++ rest ∧ Stops rest := by
  have hd : ∀ c ∈ cs.takeWhile Char.isDigit, c.isDigit = true :=
    fun c hc => List.all_eq_true.mp (List.all_takeWhile) c hc
  have hs : Stops (cs.dropWhile Char.isDigit) := by
    intro c hc
    have hn := List.head?_dropWhile_not Char.isDigit cs
    rw [hc] at hn
    simpa using hn
  have hcs := List.takeWhile_append_dropWhile (p := Char.isDigit) (l := cs)
  unfold read at h
  split at h
  · simp at h
  · simp at h
  · next digits hnil hzero =>
    simp only [Option.some.injEq, Prod.mk.injEq] at h
    obtain ⟨rfl, rfl⟩ := h
    refine ⟨?_, hs⟩
    cases hrun : cs.takeWhile Char.isDigit with
    | nil => exact absurd hrun hnil
    | cons c ds =>
      rw [hrun] at hd hcs
      rw [write_ofDigitChars (hd c (by simp)) (fun d h => hd d (by simp [h]))]
      · exact hcs.symm
      · intro h0
        cases ds with
        | nil => rfl
        | cons d ds => exact absurd (h0 ▸ hrun) (hzero d ds)

/-- A run of digits, with at least one. -/
structure Digits (ds : List Char) : Prop where
  ne_nil : ds ≠ []
  isDigit : ∀ c ∈ ds, c.isDigit = true

/-- A run of digits that begins with a zero only when it is one zero. -/
structure Whole (ds : List Char) : Prop extends Digits ds where
  no_leading_zero : ds.head? = some '0' → ds = ['0']

theorem digits_write (n : Nat) : Digits (write n) where
  ne_nil := Nat.toDigits_ne_nil
  isDigit _ h := isDigit_of_mem_write h

theorem head_write {n : Nat} (h : 0 < n) : (write n).head? ≠ some '0' := by
  induction n using Nat.strongRecOn with
  | _ n ih =>
    unfold write
    by_cases hn : n < 10
    · have hall : ∀ d : Fin 10, 0 < d.val → Nat.digitChar d.val ≠ '0' := by decide
      rw [Nat.toDigits_of_lt_base hn]
      simpa using hall ⟨n, hn⟩ h
    · have hne : Nat.toDigits 10 (n / 10) ≠ [] := Nat.toDigits_ne_nil
      rw [Nat.toDigits_of_base_le (by decide) (by omega), List.head?_append,
        List.head?_eq_some_head hne, Option.some_or, ← List.head?_eq_some_head hne]
      exact ih (n / 10) (by omega) (by omega)

theorem whole_write (n : Nat) : Whole (write n) where
  toDigits := digits_write n
  no_leading_zero h := by
    rcases Nat.eq_zero_or_pos n with rfl | hn
    · rfl
    · exact absurd h (head_write hn)

theorem ofDigitChars_write (n : Nat) : Nat.ofDigitChars 10 (write n) 0 = n :=
  Nat.ofDigitChars_ten_toDigits

theorem Whole.write_ofDigitChars {ds : List Char} (h : Whole ds) :
    write (Nat.ofDigitChars 10 ds 0) = ds := by
  obtain ⟨c, cs, rfl⟩ := List.exists_cons_of_ne_nil h.ne_nil
  obtain ⟨hc, hcs⟩ := List.forall_mem_cons.mp h.isDigit
  apply Numeral.write_ofDigitChars hc hcs
  rintro rfl
  exact (List.cons.inj (h.no_leading_zero rfl)).2

theorem Digits.after {ds es : List Char} (he : Digits es) (hd : ∀ c ∈ ds, c.isDigit = true) :
    Digits (ds ++ es) where
  ne_nil := List.append_ne_nil_of_right_ne_nil ds he.ne_nil
  isDigit := List.forall_mem_append.mpr ⟨hd, he.isDigit⟩

theorem split_digits {ds rest : List Char} (hd : ∀ c ∈ ds, c.isDigit = true) (hr : Stops rest) :
    (ds ++ rest).takeWhile Char.isDigit = ds ∧ (ds ++ rest).dropWhile Char.isDigit = rest := by
  have hnone : rest.takeWhile Char.isDigit = [] ∧ rest.dropWhile Char.isDigit = rest := by
    cases rest with
    | nil => exact ⟨rfl, rfl⟩
    | cons c cs => simp [hr c rfl]
  rw [List.takeWhile_append_of_pos hd, List.dropWhile_append_of_pos hd, hnone.1, hnone.2,
    List.append_nil]
  exact ⟨rfl, rfl⟩

theorem span_digits {ds rest : List Char} (hd : ∀ c ∈ ds, c.isDigit = true) (hr : Stops rest) :
    (ds ++ rest).span Char.isDigit = (ds, rest) := by
  obtain ⟨htake, hdrop⟩ := split_digits hd hr
  rw [List.span_eq_takeWhile_dropWhile, htake, hdrop]

theorem split_write (n : Nat) {rest : List Char} (h : Stops rest) :
    (write n ++ rest).takeWhile Char.isDigit = write n ∧
      (write n ++ rest).dropWhile Char.isDigit = rest :=
  split_digits (digits_write n).isDigit h

/-- A numeral begins with a digit. -/
theorem write_append_ne {n : Nat} {c : Char} (hc : c.isDigit = false) (cs ds : List Char) :
    write n ++ cs ≠ c :: ds := by
  intro h
  obtain ⟨d, es, hd⟩ := List.exists_cons_of_ne_nil (digits_write n).ne_nil
  have hdigit : d.isDigit = true := isDigit_of_mem_write (hd ▸ List.mem_cons_self)
  rw [hd, List.cons_append, List.cons.injEq] at h
  rw [h.1, hc] at hdigit
  contradiction

/-- A writing is read back, up to the first character that is no digit. -/
theorem read_write (n : Nat) {rest : List Char} (h : Stops rest) :
    read (write n ++ rest) = some (n, rest) := by
  obtain ⟨htake, hdrop⟩ := split_write n h
  unfold read
  rw [htake, hdrop]
  split
  · next hnil => exact absurd hnil (digits_write n).ne_nil
  · next hzero =>
    have hone : write n = ['0'] := (whole_write n).no_leading_zero (by rw [hzero]; rfl)
    exact absurd (hzero.symm.trans hone) (by simp)
  · rw [ofDigitChars_write]

theorem read_ok {cs rest : List Char} {n : Nat} :
    read cs = some (n, rest) ↔ cs = write n ++ rest ∧ Stops rest := by
  constructor
  · exact write_of_read
  · rintro ⟨rfl, h⟩
    exact read_write n h

theorem fits_iff {n : Nat} : fits n = true ↔ n < 10 ^ digitLimit := by
  rw [fits, decide_eq_true_iff]
  exact Nat.length_toDigits_le_iff (by decide) (by decide)

/-- A number with a digit to spare has a successor that can be computed with. -/
theorem fits_succ {n : Nat} (h : digitCount n < digitLimit) : fits (n + 1) = true := by
  have hshort : n < 10 ^ (digitLimit - 1) :=
    (Nat.length_toDigits_le_iff (by decide) (by decide)).mp (Nat.le_sub_one_of_lt h)
  have hroom : 10 ^ (digitLimit - 1) < 10 ^ digitLimit :=
    Nat.pow_lt_pow_right (by decide) (by decide)
  exact fits_iff.mpr (Nat.lt_of_le_of_lt hshort hroom)

end ProductLock.Numeral
