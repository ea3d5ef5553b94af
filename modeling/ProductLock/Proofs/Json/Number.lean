import ProductLock.Json.Reader
import ProductLock.Json.Writer
import ProductLock.Proofs.Double.Text

namespace ProductLock.Json

open Numeral

/-- In front of such a text a number is complete. -/
def NumberEnds (rest : List Char) : Prop :=
  ∀ c, rest.head? = some c → c.isDigit = false ∧ c ≠ '.' ∧ c ≠ 'e' ∧ c ≠ 'E'

theorem NumberEnds.stops {rest : List Char} (h : NumberEnds rest) : Stops rest :=
  fun c hc => (h c hc).1

/-- What follows the whole part of a number, given its digits. -/
def afterWhole (negative : Bool) (whole tail : List Char) : Reading Value :=
  let (fraction, rest) := readFraction tail
  let (exponent, rest) := readExponent rest
  match fraction, exponent with
  | none, none =>
    if whole.length > digitLimit then .error (.digits whole.length)
    else
      let n : Int := Nat.ofDigitChars 10 whole 0
      .ok (.int (if negative then -n else n), rest)
  | _, _ =>
    let decimals := fraction.getD []
    let digits := Nat.ofDigitChars 10 (whole ++ decimals) 0
    .ok (.double (Double.ofDecimal negative digits (exponent.getD 0 - decimals.length)), rest)

/-- The digits before the point and the exponent of a number, of which a zero in front is the only
one, and what follows them. -/
def splitWhole (cs : List Char) : List Char × List Char :=
  match cs with
  | '0' :: rest => (['0'], rest)
  | _ => takeDigits cs

theorem readNumeral_eq (negative : Bool) (start cs : List Char) : readNumeral negative start cs =
    if (splitWhole cs).1 = [] then .error (.syntaxError .value start)
    else afterWhole negative (splitWhole cs).1 (splitWhole cs).2 :=
  rfl

theorem splitWhole_whole {whole tail : List Char} (hw : Whole whole) (ht : Stops tail) :
    splitWhole (whole ++ tail) = (whole, tail) := by
  obtain ⟨c, cs, rfl⟩ := List.exists_cons_of_ne_nil hw.ne_nil
  by_cases hc : c = '0'
  · subst hc
    have hcs : cs = [] := (List.cons.inj (hw.no_leading_zero rfl)).2
    subst hcs
    rfl
  · unfold splitWhole
    split
    · next heq => exact absurd (List.cons.inj heq).1 hc
    · exact span_digits hw.isDigit ht

theorem readNumeral_whole {whole tail : List Char} (hw : Whole whole) (ht : Stops tail)
    (negative : Bool) (start : List Char) :
    readNumeral negative start (whole ++ tail) = afterWhole negative whole tail := by
  rw [readNumeral_eq, splitWhole_whole hw ht]
  exact if_neg hw.ne_nil

theorem readFraction_of_none {rest : List Char} (h : rest.head? ≠ some '.') :
    readFraction rest = (none, rest) := by
  unfold readFraction
  split
  · simp at h
  · rfl

theorem readFraction_digits {ds rest : List Char} (hd : Digits ds) (hr : Stops rest) :
    readFraction ('.' :: (ds ++ rest)) = (some ds, rest) := by
  have hspan : takeDigits (ds ++ rest) = (ds, rest) := span_digits hd.isDigit hr
  simp only [readFraction, hspan, hd.ne_nil, if_false]

theorem readExponent_of_none {rest : List Char} (h : rest.head? ≠ some 'e')
    (h' : rest.head? ≠ some 'E') : readExponent rest = (none, rest) := by
  unfold readExponent
  split
  · next c rest =>
    simp only [List.head?_cons, ne_eq, Option.some.injEq] at h h'
    rw [if_neg (not_or.mpr ⟨h, h'⟩)]
  · rfl

def powerOf (down : Bool) (digits : List Char) : Int :=
  if down then -(Nat.ofDigitChars 10 digits 0 : Int) else Nat.ofDigitChars 10 digits 0

theorem readExponent_digits {ds rest : List Char} (negative : Bool) (hd : Digits ds)
    (hr : Stops rest) :
    readExponent ('e' :: (if negative then '-' else '+') :: (ds ++ rest)) =
      (some (powerOf negative ds), rest) := by
  have hspan : takeDigits (ds ++ rest) = (ds, rest) := span_digits hd.isDigit hr
  cases negative <;> simp [readExponent, readExponentSign, hspan, hd.ne_nil, powerOf]

/-- A whole number within the limit is read as it is. -/
theorem readNumeral_write {n : Nat} (hn : fits n = true) (negative : Bool) (start : List Char)
    {rest : List Char} (hr : NumberEnds rest) :
    readNumeral negative start (Numeral.write n ++ rest) =
      .ok (.int (if negative then -n else n), rest) := by
  have hlength : ¬ (Numeral.write n).length > digitLimit := by
    exact Nat.not_lt.mpr (of_decide_eq_true hn)
  have hpoint : rest.head? ≠ some '.' := fun h => (hr _ h).2.1 rfl
  have hlower : rest.head? ≠ some 'e' := fun h => (hr _ h).2.2.1 rfl
  have hupper : rest.head? ≠ some 'E' := fun h => (hr _ h).2.2.2 rfl
  rw [readNumeral_whole (whole_write n) hr.stops]
  simp only [afterWhole, readFraction_of_none hpoint, readExponent_of_none hlower hupper,
    hlength, if_false, ofDigitChars_write]

/-- The number that the digits of a decimal stand for. -/
def decimalValue (negative : Bool) (whole decimals : List Char) (exponent : Int) : Value :=
  .double (Double.ofDecimal negative (Nat.ofDigitChars 10 (whole ++ decimals) 0)
    (exponent - decimals.length))

/-- A decimal is read as one number. -/
theorem exists_readNumeral {cs : List Char} (h : Double.Decimal cs) (negative : Bool) :
    ∃ v, ∀ start rest, NumberEnds rest →
      readNumeral negative start (cs ++ rest) = .ok (v, rest) := by
  have hpoint (cs : List Char) : Stops ('.' :: cs) := stops_cons rfl
  have hletter (cs : List Char) : Stops ('e' :: cs) := stops_cons rfl
  cases h with
  | @point whole fraction hw hf =>
    refine ⟨decimalValue negative whole fraction 0, fun start rest hr => ?_⟩
    have hlower : rest.head? ≠ some 'e' := fun h => (hr _ h).2.2.1 rfl
    have hupper : rest.head? ≠ some 'E' := fun h => (hr _ h).2.2.2 rfl
    rw [List.append_assoc, List.cons_append, readNumeral_whole hw (hpoint _)]
    simp only [afterWhole, readFraction_digits hf hr.stops, readExponent_of_none hlower hupper]
    rfl
  | @exponent whole digits down hw hp =>
    refine ⟨decimalValue negative whole [] (powerOf down digits), fun start rest hr => ?_⟩
    have hnone (cs : List Char) : readFraction ('e' :: cs) = (none, 'e' :: cs) :=
      readFraction_of_none (by simp)
    rw [List.append_assoc, List.cons_append, List.cons_append, readNumeral_whole hw (hletter _)]
    simp only [afterWhole, hnone, readExponent_digits down hp hr.stops]
    rfl
  | @both whole fraction digits down hw hf hp =>
    refine ⟨decimalValue negative whole fraction (powerOf down digits), fun start rest hr => ?_⟩
    rw [List.append_assoc, List.cons_append, List.append_assoc, List.cons_append, List.cons_append,
      readNumeral_whole hw (hpoint _)]
    simp only [afterWhole, readFraction_digits hf (hletter _), readExponent_digits down hp hr.stops]
    rfl

end ProductLock.Json
