import ProductLock.Double.Text
import ProductLock.Proofs.Numeral

namespace ProductLock.Double

open Numeral

/-- A numeral with a point, an exponent or both: what tells it from a whole number. -/
inductive Decimal : List Char → Prop
  | point {whole fraction : List Char} (hw : Whole whole) (hf : Digits fraction) :
    Decimal (whole ++ '.' :: fraction)
  | exponent {whole power : List Char} (negative : Bool) (hw : Whole whole) (hp : Digits power) :
    Decimal (whole ++ 'e' :: (if negative then '-' else '+') :: power)
  | both {whole fraction power : List Char} (negative : Bool) (hw : Whole whole)
    (hf : Digits fraction) (hp : Digits power) :
    Decimal (whole ++ '.' :: (fraction ++ 'e' :: (if negative then '-' else '+') :: power))

theorem Decimal.head {cs : List Char} (h : Decimal cs) :
    ∃ c more, cs = c :: more ∧ c.isDigit = true := by
  have hwhole {whole : List Char} (hw : Whole whole) (tail : List Char) :
      ∃ c more, whole ++ tail = c :: more ∧ c.isDigit = true := by
    obtain ⟨c, cs, rfl⟩ := List.exists_cons_of_ne_nil hw.ne_nil
    exact ⟨c, cs ++ tail, rfl, hw.isDigit c List.mem_cons_self⟩
  cases h with
  | point hw _ => exact hwhole hw _
  | exponent _ hw _ => exact hwhole hw _
  | both _ hw _ _ => exact hwhole hw _

/-- A decimal consists of digits and four marks. -/
theorem Decimal.forall_mem {p : Char → Prop} {cs : List Char} (h : Decimal cs)
    (hdigit : ∀ c, c.isDigit = true → p c) (hmark : ∀ c ∈ ['.', 'e', '-', '+'], p c) :
    ∀ c ∈ cs, p c := by
  have hdigits {ds : List Char} (hd : ∀ c ∈ ds, c.isDigit = true) : ∀ c ∈ ds, p c :=
    fun c hc => hdigit c (hd c hc)
  have hsign (negative : Bool) : p (if negative then '-' else '+') := by
    cases negative <;> exact hmark _ (by decide)
  have hpoint : p '.' := hmark _ (by decide)
  have hletter : p 'e' := hmark _ (by decide)
  cases h with
  | point hw hf =>
    simp only [List.forall_mem_append, List.forall_mem_cons]
    exact ⟨hdigits hw.isDigit, hpoint, hdigits hf.isDigit⟩
  | exponent negative hw hp =>
    simp only [List.forall_mem_append, List.forall_mem_cons]
    exact ⟨hdigits hw.isDigit, hletter, hsign negative, hdigits hp.isDigit⟩
  | both negative hw hf hp =>
    simp only [List.forall_mem_append, List.forall_mem_cons]
    exact ⟨hdigits hw.isDigit, hpoint, hdigits hf.isDigit, hletter, hsign negative,
      hdigits hp.isDigit⟩

theorem zeros_isDigit (n : Nat) : ∀ c ∈ zeros n, c.isDigit = true := by
  intro c h
  rw [(List.mem_replicate.mp h).2]
  rfl

theorem dropWhile_concat {p : Char → Bool} {c : Char} (hc : p c = false) (cs : List Char) :
    (cs ++ [c]).dropWhile p = cs.dropWhile p ++ [c] := by
  induction cs with
  | nil => simp [hc]
  | cons d ds ih =>
    rw [List.cons_append, List.dropWhile_cons, List.dropWhile_cons, ih]
    split <;> rfl

/-- The digits of a positive number without the zeros at the end begin with its first digit. -/
theorem digits_significant {ds : List Char} (hd : Digits ds) (hz : ds.head? ≠ some '0') :
    Digits (ds.reverse.dropWhile (· == '0')).reverse ∧
      (ds.reverse.dropWhile (· == '0')).reverse.head? ≠ some '0' := by
  obtain ⟨c, cs, rfl⟩ := List.exists_cons_of_ne_nil hd.ne_nil
  obtain ⟨hdigit, hcs⟩ := List.forall_mem_cons.mp hd.isDigit
  have hc : (c == '0') = false := by simpa using hz
  rw [List.reverse_cons, dropWhile_concat (p := (· == '0')) hc, List.reverse_append]
  refine ⟨⟨by simp, List.forall_mem_append.mpr ⟨by simpa using hdigit, ?_⟩⟩, by simpa using hz⟩
  intro d hmem
  have hdrop := (List.dropWhile_sublist _).mem (List.mem_reverse.mp hmem)
  exact hcs d (List.mem_reverse.mp hdrop)

theorem signed_eq (e : Int) : ∃ power, Digits power ∧
    signed e = (if decide (e < 0) then '-' else '+') :: power :=
  ⟨_, (digits_write e.natAbs).after (zeros_isDigit (2 - (Numeral.write e.natAbs).length)),
    by simp [signed]⟩

theorem digits_zero : Digits ['0'] :=
  digits_write 0

theorem whole_zero : Whole ['0'] :=
  whole_write 0

/-- Laid-out digits make a decimal. -/
theorem decimal_layout {digits : List Char} (hd : Digits digits) (hz : digits.head? ≠ some '0')
    (point : Int) : Decimal (layout digits point) := by
  obtain ⟨c, cs, rfl⟩ := List.exists_cons_of_ne_nil hd.ne_nil
  obtain ⟨hc, hcs⟩ := List.forall_mem_cons.mp hd.isDigit
  have hzero : c ≠ '0' := by simpa using hz
  unfold layout
  split
  · exact .point whole_zero (hd.after (zeros_isDigit (-point).toNat))
  · split
    · next hpoint =>
      obtain ⟨n, hn⟩ : ∃ n, point.toNat = n + 1 := ⟨point.toNat - 1, by omega⟩
      have hsub : ∀ d ∈ cs.take n ++ zeros (n + 1 - (c :: cs.take n).length), d.isDigit = true :=
        List.forall_mem_append.mpr ⟨fun d h => hcs d (List.take_subset n cs h), zeros_isDigit _⟩
      have hwhole : Whole (c :: cs.take n ++ zeros (n + 1 - (c :: cs.take n).length)) :=
        ⟨⟨by simp, List.forall_mem_cons.mpr ⟨hc, hsub⟩⟩, by simp [hzero]⟩
      have hfraction : Digits (if cs.drop n = [] then ['0'] else cs.drop n) := by
        split
        · exact digits_zero
        · next hne => exact ⟨hne, fun d h => hcs d (List.drop_subset n cs h)⟩
      rw [hn]
      exact .point hwhole hfraction
    · have hone : Whole [c] := ⟨⟨by simp, by simpa using hc⟩, by simp [hzero]⟩
      obtain ⟨power, hpower, hsigned⟩ := signed_eq (point - 1)
      rw [hsigned]
      cases cs with
      | nil => exact .exponent _ hone hpower
      | cons d ds => exact .both _ hone ⟨by simp, hcs⟩ hpower

theorem decimal_layout_nil : Decimal (layout [] 1) :=
  .point whole_zero digits_zero

/-- Of the multiples of a power of ten near a positive double none is zero. -/
theorem pos_of_onGrid {m : Nat} {e k : Int} {c : Nat} (hm : 0 < m)
    (h : (interval m e).onGrid k = some c) : 0 < c := by
  have hlow : 0 < (interval m e).low := by
    simp only [interval]
    split <;> omega
  have hunit : 0 < Nat.pow 2 (interval m e).exponent.toNat * Nat.pow 10 (-k).toNat :=
    Nat.mul_pos (Nat.pow_pos (by decide)) (Nat.pow_pos (by decide))
  have hprod := Nat.mul_pos hlow hunit
  unfold Interval.onGrid at h
  have hit := List.find?_some h
  rcases Nat.eq_zero_or_pos c with rfl | hc
  · simp only [Nat.zero_mul] at hit
    split at hit <;>
    · simp only [decide_eq_true_eq] at hit
      omega
  · exact hc

/-- The fewest digits stand for a positive number, unless there are none to be found. -/
theorem shortest_pos {m : Nat} {e : Int} (hm : 0 < m) :
    0 < (shortest m e).1 ∨ shortest m e = (0, 0) := by
  unfold shortest
  cases hfound : (((List.range 17).map fun (n : Nat) =>
      leadingExponent (m * Nat.pow 2 e.toNat) (Nat.pow 2 (-e).toNat) - n).findSome?
        fun k => ((interval m e).onGrid k).map fun c => (c, k)) with
  | none => exact .inr (by simp only [hfound, Option.getD_none])
  | some found =>
    simp only [hfound, Option.getD_some]
    obtain ⟨k, _, hk⟩ := List.exists_of_findSome?_eq_some hfound
    obtain ⟨c, hc, rfl⟩ := Option.map_eq_some_iff.mp hk
    exact .inl (pos_of_onGrid hm hc)

theorem decimal_writeMagnitude (m : Nat) (e : Int) : Decimal (writeMagnitude m e) := by
  unfold writeMagnitude
  split
  · exact .point whole_zero digits_zero
  · next hm =>
    rcases shortest_pos (e := e) (Nat.pos_of_ne_zero hm) with hpos | hnone
    · obtain ⟨hdigits, hhead⟩ := digits_significant (digits_write _) (head_write hpos)
      exact decimal_layout hdigits hhead _
    · rw [hnone]
      exact decimal_layout_nil

end ProductLock.Double
