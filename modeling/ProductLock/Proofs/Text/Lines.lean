import ProductLock.Text.Decode

namespace ProductLock.Text

/-- A text without a line break, so that it stays one line. -/
def Unbroken (cs : List Char) : Prop :=
  ∀ c ∈ cs, isLineBreak c = false

theorem unbroken_cons {c : Char} {cs : List Char} :
    Unbroken (c :: cs) ↔ isLineBreak c = false ∧ Unbroken cs :=
  List.forall_mem_cons

theorem unbroken_append {cs ds : List Char} : Unbroken (cs ++ ds) ↔ Unbroken cs ∧ Unbroken ds :=
  List.forall_mem_append

theorem unbroken_of_not_blank {cs : List Char} (h : ∀ c ∈ cs, isBlank c = false) : Unbroken cs := by
  intro c hc
  cases hb : isLineBreak c with
  | false => rfl
  | true =>
    have := isBlank_of_isLineBreak hb
    rw [h c hc] at this
    contradiction

theorem linesFrom_cons {c : Char} (hc : isLineBreak c = false) (cs held : List Char) :
    linesFrom (c :: cs) held = linesFrom cs (c :: held) := by
  have hr : c ≠ '\r' := by
    intro h
    subst h
    contradiction
  rw [linesFrom.eq_def]
  split
  · contradiction
  · contradiction
  · next heq =>
    exact absurd (List.cons.inj heq).1 hr
  · next heq =>
    obtain ⟨rfl, rfl⟩ := List.cons.inj heq
    simp [hc]

theorem linesFrom_feed (cs held : List Char) :
    linesFrom ('\n' :: cs) held = ⟨String.ofList held.reverse, "\n"⟩ :: linesFrom cs [] := by
  rw [linesFrom.eq_def]
  rfl

/-- Up to the next line feed, characters are held for the current line. -/
theorem linesFrom_append {body : List Char} (h : Unbroken body) (cs held : List Char) :
    linesFrom (body ++ '\n' :: cs) held =
      ⟨String.ofList (held.reverse ++ body), "\n"⟩ :: linesFrom cs [] := by
  induction body generalizing held with
  | nil =>
    rw [List.nil_append, linesFrom_feed, List.append_nil]
  | cons c body ih =>
    have hc : isLineBreak c = false := h c List.mem_cons_self
    have hbody : Unbroken body := fun d hd => h d (List.mem_cons_of_mem c hd)
    rw [List.cons_append, linesFrom_cons hc, ih hbody]
    simp

/-- Unbroken texts, each ended by a line feed, are the lines that are read again. -/
theorem lines_join {bodies : List String} (h : ∀ b ∈ bodies, Unbroken b.toList) :
    (lines (String.join (bodies.map fun b => b ++ "\n"))).map Line.body = bodies := by
  unfold lines
  rw [String.toList_join]
  induction bodies with
  | nil => rfl
  | cons b bodies ih =>
    have hb := h b List.mem_cons_self
    have hbodies := fun d hd => h d (List.mem_cons_of_mem b hd)
    have htext : ((b :: bodies).map fun b => b ++ "\n").flatMap String.toList =
        b.toList ++ '\n' :: (bodies.map fun b => b ++ "\n").flatMap String.toList := by
      simp
    rw [htext, linesFrom_append hb, List.map_cons, ih hbodies]
    simp

theorem linesFrom_text (cs held : List Char) :
    ((linesFrom cs held).map Line.text).flatMap String.toList = held.reverse ++ cs := by
  fun_induction linesFrom cs held with
  | case1 => rfl
  | case2 c held => simp [Line.text]
  | case3 cs held ih => simp [Line.text, ih]
  | case4 c cs held _ hbreak ih => simp [Line.text, ih]
  | case5 c cs held _ hbreak ih => simp [ih]

/-- With their breaks, the lines of a text make the text again. -/
theorem join_lines (s : String) : String.join ((lines s).map Line.text) = s := by
  rw [← String.toList_inj, String.toList_join, lines, linesFrom_text]
  rfl

theorem map_text_inj {s t : String} :
    (lines s).map Line.text = (lines t).map Line.text ↔ s = t := by
  constructor
  · intro h
    rw [← join_lines s, h, join_lines]
  · intro h
    rw [h]

theorem unifyBreaks_of_no_return {cs : List Char} (h : '\r' ∉ cs) : unifyBreaks cs = cs := by
  induction cs with
  | nil => rfl
  | cons c cs ih =>
    simp only [List.mem_cons, not_or] at h
    obtain ⟨hc, hcs⟩ := h
    rw [unifyBreaks.eq_def]
    split
    · contradiction
    · next heq => exact absurd (List.cons.inj heq).1.symm hc
    · next heq =>
      obtain ⟨rfl, rfl⟩ := List.cons.inj heq
      rw [if_neg (Ne.symm hc), ih hcs]

/-- A text without carriage returns is the text of its own file. -/
theorem decode_toUTF8 {s : String} (h : '\r' ∉ s.toList) : decode s.toUTF8 = some s := by
  have hread : String.fromUTF8? s.toUTF8 = some s := dif_pos s.isValidUTF8
  rw [decode, hread, Option.map_some, unifyBreaks_of_no_return h, String.ofList_toList]

theorem decode_eq_none {bytes : ByteArray} : decode bytes = none ↔ ¬ bytes.IsValidUTF8 := by
  rw [decode, Option.map_eq_none_iff, String.fromUTF8?]
  split
  · next h => simp [h]
  · next h => simp [h]

theorem exists_decode {bytes : ByteArray} :
    (∃ s, decode bytes = some s) ↔ bytes.IsValidUTF8 := by
  rw [← Option.isSome_iff_exists, Option.isSome_iff_ne_none, ne_eq, decode_eq_none,
    Decidable.not_not]

/-- Lines that are unbroken, each ended by a line feed, make a text without carriage returns. -/
theorem no_return_join {bodies : List String} (h : ∀ b ∈ bodies, Unbroken b.toList) :
    '\r' ∉ (String.join (bodies.map fun b => b ++ "\n")).toList := by
  rw [String.toList_join, List.mem_flatMap]
  intro hmem
  obtain ⟨line, hline, hreturn⟩ := hmem
  obtain ⟨b, hb, rfl⟩ := List.mem_map.mp hline
  rw [String.toList_append, List.mem_append] at hreturn
  rcases hreturn with hreturn | hreturn
  · exact absurd (h b hb _ hreturn) (by decide)
  · exact absurd hreturn (by decide)

end ProductLock.Text
