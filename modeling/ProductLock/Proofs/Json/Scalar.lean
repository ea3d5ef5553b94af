import ProductLock.Proofs.Json.Number
import ProductLock.Proofs.Json.Text

namespace ProductLock.Json

open Numeral

/-- The words and numbers of a document begin with such a character. -/
def IsBare (c : Char) : Prop :=
  c.isDigit = true ∨ c ∈ ['-', 'n', 't', 'f', 'N', 'I']

theorem IsBare.ne {c d : Char} (h : IsBare c) (hd : ¬ IsBare d) : c ≠ d := by
  rintro rfl
  exact hd h

instance (c : Char) : Decidable (IsBare c) :=
  inferInstanceAs (Decidable (_ ∨ _))

/-- The literal in front of a text, if there is one. -/
def literal? (cs : List Char) : Option (Value × List Char) :=
  literals.findSome? fun (word, v) => (dropWord? word cs).map fun rest => (v, rest)

theorem literal_words {e : String × Value} (h : e ∈ literals) : ∃ a b more,
    e.1.toList = a :: b :: more ∧ a.isDigit = false ∧ (a = '-' → b.isDigit = false) := by
  simp only [literals, List.mem_cons, List.not_mem_nil, or_false] at h
  rcases h with rfl | rfl | rfl | rfl | rfl | rfl <;> exact ⟨_, _, _, rfl, rfl, by decide⟩

theorem literal?_of_digit {c : Char} (hc : c.isDigit = true) (rest : List Char) :
    literal? (c :: rest) = none := by
  refine List.findSome?_eq_none_iff.mpr fun e he => ?_
  obtain ⟨a, b, more, hword, ha, _⟩ := literal_words he
  have hne : a ≠ c := by
    rintro rfl
    rw [hc] at ha
    contradiction
  simp [dropWord?, hword, hne]

theorem literal?_of_minus {c : Char} (hc : c.isDigit = true) (rest : List Char) :
    literal? ('-' :: c :: rest) = none := by
  refine List.findSome?_eq_none_iff.mpr fun e he => ?_
  obtain ⟨a, b, more, hword, _, hb⟩ := literal_words he
  have hne (ha : a = '-') : b ≠ c := by
    rintro rfl
    rw [hb ha] at hc
    contradiction
  simp only [dropWord?, hword]
  by_cases ha : a = '-'
  · simp [hne ha]
  · simp [ha]

theorem readScalar_of_literal {cs rest : List Char} {v : Value} (h : literal? cs = some (v, rest)) :
    readScalar cs = .ok (v, rest) := by
  unfold literal? at h
  simp only [readScalar, h]

theorem readScalar_of_none {c : Char} {cs : List Char} (h : literal? (c :: cs) = none) :
    readScalar (c :: cs) =
      if c = '-' then readNumeral true (c :: cs) cs else readNumeral false (c :: cs) (c :: cs) := by
  unfold literal? at h
  simp only [readScalar, h]
  split
  · simp_all
  · next hne =>
    rw [if_neg]
    rintro rfl
    exact hne cs rfl

/-- A number is read with its sign. -/
theorem readScalar_signed {c : Char} (hc : c.isDigit = true) (negative : Bool) (cs : List Char) :
    readScalar ((if negative then ['-'] else []) ++ c :: cs) =
      readNumeral negative ((if negative then ['-'] else []) ++ c :: cs) (c :: cs) := by
  cases negative with
  | true => exact (readScalar_of_none (literal?_of_minus hc cs)).trans (if_pos rfl)
  | false =>
    have hminus : c ≠ '-' := by
      rintro rfl
      contradiction
    exact (readScalar_of_none (literal?_of_digit hc cs)).trans (if_neg hminus)

/-- An integer within the limit is read as it is. -/
theorem readScalar_int {i : Int} (hi : fits i.natAbs = true) {rest : List Char}
    (hr : NumberEnds rest) : readScalar (writeInt i ++ rest) = .ok (.int i, rest) := by
  obtain ⟨c, cs, hdigits⟩ := List.exists_cons_of_ne_nil (digits_write i.natAbs).ne_nil
  have hc : c.isDigit = true := (digits_write i.natAbs).isDigit c (by simp [hdigits])
  have hsigned := readScalar_signed hc (decide (i < 0)) (cs ++ rest)
  have hvalue : (if decide (i < 0) = true then -(i.natAbs : Int) else i.natAbs) = i := by
    simp only [decide_eq_true_eq]
    split <;> omega
  rw [← List.cons_append, ← hdigits, readNumeral_write hi _ _ hr, hvalue] at hsigned
  simpa [writeInt] using hsigned

/-- A double is read as one value. -/
theorem exists_readScalar_double (x : Double) : ∃ v, ∀ rest, NumberEnds rest →
    readScalar (x.write doubleWords ++ rest) = .ok (v, rest) := by
  cases x with
  | nan => exact ⟨.double .nan, fun rest _ => readScalar_of_literal rfl⟩
  | infinite negative =>
    refine ⟨.double (.infinite negative), fun rest _ => readScalar_of_literal ?_⟩
    cases negative <;> rfl
  | finite negative m e =>
    have hdecimal := Double.decimal_writeMagnitude m e
    obtain ⟨v, hv⟩ := exists_readNumeral hdecimal negative
    obtain ⟨c, cs, hcs, hc⟩ := hdecimal.head
    refine ⟨v, fun rest hr => ?_⟩
    have hsigned := readScalar_signed hc negative (cs ++ rest)
    rw [← List.cons_append, ← hcs, hv _ _ hr] at hsigned
    simpa [Double.write] using hsigned

/-- What is written for a leaf other than a text is read whole, and a leaf other than a double is
read as it is. -/
theorem exists_readScalar {v : Value} (hfault : leafFault? v = none)
    (htext : ∀ s, v ≠ .text s) (hpoints : ∀ ps, v ≠ .points ps) :
    ∃ v', ((∀ x, v ≠ .double x) → v' = v) ∧ ∀ style rest, NumberEnds rest →
      readScalar (writeScalar style v ++ rest) = .ok (v', rest) := by
  cases v with
  | null => exact ⟨.null, fun _ => rfl, fun style rest _ => rfl⟩
  | bool b => exact ⟨.bool b, fun _ => rfl, fun style rest _ => by cases b <;> rfl⟩
  | int i =>
    have hfits : fits i.natAbs = true := by simpa [leafFault?] using hfault
    exact ⟨.int i, fun _ => rfl, fun style rest hr => readScalar_int hfits hr⟩
  | double x =>
    obtain ⟨v, hv⟩ := exists_readScalar_double x
    exact ⟨v, fun h => absurd rfl (h x), fun style rest hr => hv rest hr⟩
  | text s => exact absurd rfl (htext s)
  | points ps => exact absurd rfl (hpoints ps)
  | _ => contradiction

theorem isVerbatim_of_isDigit {c : Char} (h : c.isDigit = true) : IsVerbatim c := by
  obtain ⟨hlow, hhigh⟩ := bounds_of_isDigit h
  refine ⟨by omega, ?_, ?_⟩ <;>
  · rintro rfl
    contradiction

/-- A text in characters that need no escape, the first of them one that tells it from texts, lists
and maps. -/
structure BareText (cs : List Char) : Prop where
  head : ∃ c more, cs = c :: more ∧ IsBare c
  verbatim : ∀ c ∈ cs, IsVerbatim c

theorem bareText_word (word : String)
    (hhead : word.toList.head?.any (fun c => decide (IsBare c)) = true)
    (hall : word.toList.all (fun c => decide (IsVerbatim c)) = true) : BareText word.toList := by
  refine ⟨?_, by simpa using hall⟩
  cases hcs : word.toList with
  | nil => simp [hcs] at hhead
  | cons c cs => exact ⟨c, cs, rfl, by simpa [hcs] using hhead⟩

theorem bareText_signed (negative : Bool) {cs : List Char}
    (hcs : ∃ c more, cs = c :: more ∧ c.isDigit = true) (hall : ∀ c ∈ cs, IsVerbatim c) :
    BareText ((if negative then ['-'] else []) ++ cs) := by
  have hminus : IsVerbatim '-' := by decide
  obtain ⟨c, more, rfl, hc⟩ := hcs
  cases negative with
  | true => exact ⟨⟨'-', _, rfl, by decide⟩, List.forall_mem_cons.mpr ⟨hminus, hall⟩⟩
  | false => exact ⟨⟨c, more, rfl, .inl hc⟩, hall⟩

theorem writeScalar_bare {v : Value} (hfault : leafFault? v = none)
    (htext : ∀ s, v ≠ .text s) (hpoints : ∀ ps, v ≠ .points ps) (style : Style) :
    BareText (writeScalar style v) := by
  cases v with
  | null => exact bareText_word "null" (by decide) (by decide)
  | bool b =>
    cases b with
    | false => exact bareText_word "false" (by decide) (by decide)
    | true => exact bareText_word "true" (by decide) (by decide)
  | int i =>
    have hdigits := digits_write i.natAbs
    obtain ⟨c, cs, hcs⟩ := List.exists_cons_of_ne_nil hdigits.ne_nil
    have := bareText_signed (decide (i < 0)) ⟨c, cs, hcs, hdigits.isDigit c (by simp [hcs])⟩
      fun c hc => isVerbatim_of_isDigit (hdigits.isDigit c hc)
    simpa [writeScalar, writeInt] using this
  | double x =>
    cases x with
    | nan => exact bareText_word "NaN" (by decide) (by decide)
    | infinite negative =>
      cases negative with
      | false => exact bareText_word "Infinity" (by decide) (by decide)
      | true => exact bareText_word "-Infinity" (by decide) (by decide)
    | finite negative m e =>
      have hdecimal := Double.decimal_writeMagnitude m e
      have hmarks : ∀ c ∈ ['.', 'e', '-', '+'], IsVerbatim c := by simp [IsVerbatim]
      exact bareText_signed negative hdecimal.head
        (hdecimal.forall_mem (fun c hc => isVerbatim_of_isDigit hc) hmarks)
  | text s => exact absurd rfl (htext s)
  | points ps => exact absurd rfl (hpoints ps)
  | _ => contradiction

/-- A quoted text, with the value that reading it gives. -/
def Quoted (cs : List Char) (v : Value) : Prop :=
  ∃ body, cs = '"' :: body ++ ['"'] ∧ ∀ fuel rest, body.length < fuel →
    readString fuel (body ++ '"' :: rest) = .ok (v, rest)

theorem quoted_text (style : Style) (s : String) :
    Quoted (writeText style (textPoints s)) (.text s) := by
  refine ⟨(textPoints s).flatMap (writePoint style), rfl, fun fuel rest hfuel => ?_⟩
  exact readString_text style s rest (Nat.lt_of_le_of_lt (length_le_flatMap style _) hfuel)

theorem exists_quoted {body : List Char} (h : Escaped body) :
    ∃ v, Quoted ('"' :: body ++ ['"']) v := by
  obtain ⟨ps, hps⟩ := h.readPoints
  refine ⟨Value.ofPoints ps, body, rfl, fun fuel rest hfuel => ?_⟩
  simp [readString, hps _ fuel rest [] hfuel]

/-- How a leaf is written depends on the escapes only. -/
theorem writeScalar_line {style : Style} (hs : style.escapeAll = true) (v : Value) :
    writeScalar style v = writeScalar .line v := by
  have hpoint : writePoint style = writePoint .line := by
    funext n
    simp [writePoint, hs, Style.line]
  cases v <;> simp [writeScalar, writeText, hpoint]

theorem writeKey_line {style : Style} (hs : style.escapeAll = true) (k : Value) :
    writeKey style k = writeKey .line k := by
  cases k <;> simp [writeKey, writeScalar_line hs]

/-- A key is read back as a text, and one that is a text as it is. -/
theorem exists_key {k : Value} (hfault : leafFault? k = none) :
    ∃ k', (∀ s, k = .text s → k' = k) ∧
      ∀ style : Style, style.escapeAll = true → Quoted (writeKey style k) k' := by
  suffices h : ∃ k', (∀ s, k = .text s → k' = k) ∧ Quoted (writeKey .line k) k' by
    obtain ⟨k', htext, hquoted⟩ := h
    exact ⟨k', htext, fun style hs => writeKey_line hs k ▸ hquoted⟩
  by_cases htext : ∃ s, k = .text s
  · obtain ⟨s, rfl⟩ := htext
    exact ⟨.text s, fun _ _ => rfl, quoted_text .line s⟩
  · have hno (s : String) : k ≠ .text s := fun h => htext ⟨s, h⟩
    by_cases hpoints : ∃ ps, k = .points ps
    · obtain ⟨ps, rfl⟩ := hpoints
      obtain ⟨v, hv⟩ := exists_quoted (escaped_points escapeAll_line ps)
      exact ⟨v, fun s h => absurd h (hno s), hv⟩
    · have hverbatim := (writeScalar_bare hfault hno (fun ps h => hpoints ⟨ps, h⟩) .line).verbatim
      obtain ⟨v, hv⟩ := exists_quoted (.verbatim hverbatim)
      refine ⟨v, fun s h => absurd h (hno s), ?_⟩
      cases k with
      | text s => exact absurd rfl (hno s)
      | points ps => exact absurd ⟨ps, rfl⟩ hpoints
      | _ => exact hv

end ProductLock.Json
