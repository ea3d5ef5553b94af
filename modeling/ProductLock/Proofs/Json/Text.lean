import Mathlib.Tactic.SplitIfs
import ProductLock.Json.Reader
import ProductLock.Json.Writer

namespace ProductLock.Json

theorem hexValue?_digitChar {d : Nat} (h : d < 16) : hexValue? (Nat.digitChar d) = some d := by
  have hall : ∀ d : Fin 16, hexValue? (Nat.digitChar d.val) = some d.val := by decide
  exact hall ⟨d, h⟩

/-- Of a padded number the last digit can be taken off. -/
theorem hexDigits_step {width : Nat} (hw : 0 < width) (n : Nat) :
    Text.hexDigits (width + 1) n = Text.hexDigits width (n / 16) ++ [Nat.digitChar (n % 16)] := by
  unfold Text.hexDigits
  by_cases h : n < 16
  · obtain ⟨w, rfl⟩ : ∃ w, width = w + 1 := ⟨width - 1, by omega⟩
    have hzero : Nat.toDigits 16 0 = ['0'] := rfl
    rw [Nat.toDigits_of_lt_base h, Nat.div_eq_of_lt h, Nat.mod_eq_of_lt h, hzero]
    simp [List.replicate_succ']
  · rw [Nat.toDigits_of_base_le (by decide) (by omega)]
    simp [Nat.add_sub_add_right]

theorem hexDigits4_eq (n : Nat) : hexDigits4 n = Text.hexDigits 1 (n / 4096) ++
    [Nat.digitChar (n / 256 % 16), Nat.digitChar (n / 16 % 16), Nat.digitChar (n % 16)] := by
  rw [hexDigits4, hexDigits_step (by decide), hexDigits_step (by decide), hexDigits_step (by decide)]
  simp [Nat.div_div_eq_div_mul]

theorem hexDigits4_of_lt {n : Nat} (h : n < 0x10000) : hexDigits4 n =
    [Nat.digitChar (n / 4096), Nat.digitChar (n / 256 % 16), Nat.digitChar (n / 16 % 16),
      Nat.digitChar (n % 16)] := by
  have hone : Text.hexDigits 1 (n / 4096) = [Nat.digitChar (n / 4096)] := by
    rw [Text.hexDigits, Nat.toDigits_of_lt_base (by omega)]
    rfl
  rw [hexDigits4_eq, hone]
  rfl

/-- The four digits of a code unit are read as its number. -/
theorem readUnit_hexDigits4 {n : Nat} (h : n < 0x10000) (c : Char) (rest : List Char) :
    readUnit (hexDigits4 n ++ c :: rest) = some (n, c :: rest) := by
  have hfirst : n / 4096 < 16 := by omega
  rw [hexDigits4_of_lt h]
  simp only [List.cons_append, List.nil_append, readUnit, hexValue?_digitChar hfirst,
    hexValue?_digitChar (Nat.mod_lt _ (by decide : 0 < 16)), Option.bind_eq_bind, Option.bind_some,
    Option.pure_def, Option.some.injEq, Prod.mk.injEq, and_true]
  omega

/-- A code point that is no surrogate. -/
def IsScalar (n : Nat) : Prop :=
  n < 0xD800 ∨ (0xDFFF < n ∧ n < 0x110000)

theorem isScalar_toNat (c : Char) : IsScalar c.toNat := by
  rcases c.valid with h | ⟨h, h'⟩
  · exact .inl h
  · exact .inr ⟨h, h'⟩

theorem toNat_ofNat {n : Nat} (h : IsScalar n) : (Char.ofNat n).toNat = n := by
  have hchar : Char.ofNat n = Char.ofNatAux n h := dif_pos h
  rw [hchar]
  rfl

/-- A character that is written as itself. -/
theorem ofNat_plain {n : Nat} (h : IsScalar n) (hquote : n ≠ 34) (hslash : n ≠ 92) :
    Char.ofNat n ≠ '"' ∧ Char.ofNat n ≠ '\\' := by
  have hvalue := toNat_ofNat h
  constructor
  · intro heq
    rw [heq] at hvalue
    exact hquote hvalue.symm
  · intro heq
    rw [heq] at hvalue
    exact hslash hvalue.symm

/-- An escape of a code point that is no surrogate is read as it. -/
theorem readUnicodeEscape_unit {n : Nat} (h : n < 0x10000) (hn : IsScalar n) (c : Char)
    (rest : List Char) :
    readUnicodeEscape (hexDigits4 n ++ c :: rest) = .ok (n, c :: rest) := by
  have hhigh : isHighSurrogate n = false := by
    simp only [isHighSurrogate, Bool.and_eq_false_iff, decide_eq_false_iff_not]
    unfold IsScalar at hn
    omega
  unfold readUnicodeEscape
  rw [readUnit_hexDigits4 h]
  simp only [hhigh]
  split <;> simp

theorem readUnicodeEscape_pair {high low : Nat} (hhigh : isHighSurrogate high = true)
    (hlow : isLowSurrogate low = true) (c : Char) (rest : List Char) :
    readUnicodeEscape (hexDigits4 high ++ '\\' :: 'u' :: (hexDigits4 low ++ c :: rest)) =
      .ok (joinSurrogates high low, c :: rest) := by
  have hbounds : high < 0x10000 ∧ low < 0x10000 := by
    simp only [isHighSurrogate, isLowSurrogate, Bool.and_eq_true, decide_eq_true_eq] at hhigh hlow
    omega
  have hlong : (hexDigits4 low ++ c :: rest).length > 4 := by
    rw [hexDigits4_of_lt hbounds.2]
    simp
  unfold readUnicodeEscape
  rw [readUnit_hexDigits4 hbounds.1]
  simp only [hhigh, hlong, and_self, if_true, readUnit_hexDigits4 hbounds.2, hlow]

/-- The pair of surrogates that stands for a code point. -/
theorem exists_surrogates {n : Nat} (hlow : 0x10000 ≤ n) (hhigh : n < 0x110000) :
    isHighSurrogate (0xD800 + (n - 0x10000) / 0x400) = true ∧
    isLowSurrogate (0xDC00 + (n - 0x10000) % 0x400) = true ∧
    joinSurrogates (0xD800 + (n - 0x10000) / 0x400) (0xDC00 + (n - 0x10000) % 0x400) = n := by
  refine ⟨?_, ?_, ?_⟩
  · simp only [isHighSurrogate, Bool.and_eq_true, decide_eq_true_eq]
    omega
  · simp only [isLowSurrogate, Bool.and_eq_true, decide_eq_true_eq]
    omega
  · unfold joinSurrogates
    omega

theorem readUnicodeEscape_pair_append {high low n : Nat} {c : Char} {rest : List Char}
    (h : readUnicodeEscape (hexDigits4 high ++ '\\' :: 'u' :: (hexDigits4 low ++ c :: rest)) =
      .ok (n, c :: rest)) :
    ∃ cs, '\\' :: 'u' :: hexDigits4 high ++ '\\' :: 'u' :: hexDigits4 low = '\\' :: 'u' :: cs ∧
      readUnicodeEscape (cs ++ c :: rest) = .ok (n, c :: rest) := by
  refine ⟨hexDigits4 high ++ '\\' :: 'u' :: hexDigits4 low, rfl, ?_⟩
  rw [List.append_assoc]
  exact h

/-- An escaped code point is read as it. -/
theorem readUnicodeEscape_escapePoint {n : Nat} (hn : IsScalar n) (c : Char) (rest : List Char) :
    ∃ cs, escapePoint n = '\\' :: 'u' :: cs ∧
      readUnicodeEscape (cs ++ c :: rest) = .ok (n, c :: rest) := by
  unfold escapePoint
  split
  · next h => exact ⟨hexDigits4 n, rfl, readUnicodeEscape_unit h hn c rest⟩
  · next h =>
    have hrange : 0x10000 ≤ n ∧ n < 0x110000 := by
      unfold IsScalar at hn
      omega
    obtain ⟨hhigh, hlow, hjoin⟩ := exists_surrogates hrange.1 hrange.2
    have hread := readUnicodeEscape_pair hhigh hlow c rest
    rw [hjoin] at hread
    exact readUnicodeEscape_pair_append hread

theorem shortEscape?_ne_u {c : Char} {p : Nat} (h : shortEscape? c = some p) : c ≠ 'u' := by
  rintro rfl
  contradiction

theorem readPoints_short {c : Char} {p : Nat} (h : shortEscape? c = some p) (opening : List Char)
    (fuel : Nat) (cs : List Char) (held : List Nat) :
    readPoints opening (fuel + 1) ('\\' :: c :: cs) held =
      readPoints opening fuel cs (p :: held) := by
  have hu := shortEscape?_ne_u h
  rw [readPoints.eq_def]
  simp [h]

theorem readPoints_plain {c : Char} (hc : 32 ≤ c.toNat) (hquote : c ≠ '"') (hslash : c ≠ '\\')
    (opening : List Char) (fuel : Nat) (cs : List Char) (held : List Nat) :
    readPoints opening (fuel + 1) (c :: cs) held = readPoints opening fuel cs (c.toNat :: held) := by
  have hcontrol : ¬ c.toNat < 32 := by omega
  rw [readPoints.eq_def]
  simp [hcontrol, hslash]

theorem readPoints_unicode {cs rest : List Char} {n : Nat} (h : readUnicodeEscape cs = .ok (n, rest))
    (opening : List Char) (fuel : Nat) (held : List Nat) :
    readPoints opening (fuel + 1) ('\\' :: 'u' :: cs) held =
      readPoints opening fuel rest (n :: held) := by
  rw [readPoints, h]

/-- One code point is written so that one step reads it. -/
theorem readPoints_writePoint (style : Style) {n : Nat} (hn : IsScalar n) (opening : List Char)
    (fuel : Nat) (c : Char) (rest : List Char) (held : List Nat) :
    readPoints opening (fuel + 1) (writePoint style n ++ c :: rest) held =
      readPoints opening fuel (c :: rest) (n :: held) := by
  unfold writePoint
  split_ifs with h34 h92 h10 h13 h9 h12 h8 hescape
  · subst h34; exact readPoints_short rfl ..
  · subst h92; exact readPoints_short rfl ..
  · subst h10; exact readPoints_short rfl ..
  · subst h13; exact readPoints_short rfl ..
  · subst h9; exact readPoints_short rfl ..
  · subst h12; exact readPoints_short rfl ..
  · subst h8; exact readPoints_short rfl ..
  · obtain ⟨cs, hcs, hread⟩ := readUnicodeEscape_escapePoint hn c rest
    rw [hcs]
    exact readPoints_unicode hread ..
  · have hvalue : (Char.ofNat n).toNat = n := toNat_ofNat hn
    obtain ⟨hquote, hslash⟩ := ofNat_plain hn h34 h92
    rw [List.singleton_append, readPoints_plain (by omega) hquote hslash, hvalue]

theorem readPoints_flatMap (style : Style) {ps : List Nat} (hps : ∀ n ∈ ps, IsScalar n)
    (opening rest : List Char) {fuel : Nat} (hfuel : ps.length < fuel) (held : List Nat) :
    readPoints opening fuel (ps.flatMap (writePoint style) ++ '"' :: rest) held =
      .ok (held.reverse ++ ps, rest) := by
  induction ps generalizing fuel held with
  | nil =>
    obtain ⟨fuel, rfl⟩ : ∃ k, fuel = k + 1 := ⟨fuel - 1, by omega⟩
    simp [readPoints]
  | cons n ps ih =>
    obtain ⟨fuel, rfl⟩ : ∃ k, fuel = k + 1 := ⟨fuel - 1, by omega⟩
    obtain ⟨hn, hps⟩ := List.forall_mem_cons.mp hps
    obtain ⟨c, cs, htail⟩ : ∃ c cs, ps.flatMap (writePoint style) ++ '"' :: rest = c :: cs :=
      List.exists_cons_of_ne_nil (by simp)
    rw [List.flatMap_cons, List.append_assoc, htail, readPoints_writePoint style hn, ← htail,
      ih hps (by simpa using hfuel)]
    simp

theorem writePoint_ne_nil (style : Style) (n : Nat) : writePoint style n ≠ [] := by
  unfold writePoint
  split_ifs
  iterate 7 exact List.cons_ne_nil _ _
  · unfold escapePoint
    split
    · exact List.cons_ne_nil _ _
    · exact List.append_ne_nil_of_left_ne_nil (List.cons_ne_nil _ _) _
  · exact List.cons_ne_nil _ _

theorem length_le_flatMap (style : Style) (ps : List Nat) :
    ps.length ≤ (ps.flatMap (writePoint style)).length := by
  induction ps with
  | nil => simp
  | cons n ps ih =>
    have hone := List.length_pos_iff.mpr (writePoint_ne_nil style n)
    rw [List.flatMap_cons, List.length_append, List.length_cons]
    omega

theorem ofPoints_textPoints (s : String) : Value.ofPoints (textPoints s) = .text s := by
  have hnone : (textPoints s).any Value.isSurrogate = false := by
    rw [List.any_eq_false]
    intro n hn
    obtain ⟨c, _, rfl⟩ := List.mem_map.mp hn
    have := isScalar_toNat c
    simp only [Value.isSurrogate, Bool.and_eq_true, decide_eq_true_eq]
    unfold IsScalar at this
    omega
  have hback : (textPoints s).map Char.ofNat = s.toList := by
    have hid : Char.ofNat ∘ Char.toNat = id := funext Char.ofNat_toNat
    rw [textPoints, List.map_map, hid, List.map_id]
  rw [Value.ofPoints, hnone, hback]
  simp

/-- A text is read back as it is. -/
theorem readString_text (style : Style) (s : String) (rest : List Char) {fuel : Nat}
    (hfuel : (textPoints s).length < fuel) :
    readString fuel ((textPoints s).flatMap (writePoint style) ++ '"' :: rest) =
      .ok (.text s, rest) := by
  have hscalar : ∀ n ∈ textPoints s, IsScalar n := by
    intro n hn
    obtain ⟨c, _, rfl⟩ := List.mem_map.mp hn
    exact isScalar_toNat c
  unfold readString
  rw [readPoints_flatMap style hscalar _ _ hfuel]
  simp [ofPoints_textPoints]

/-- What stands between the quotes of a string: no escape in it breaks off. -/
inductive Escaped : List Char → Prop
  | nil : Escaped []
  | plain {c : Char} {cs : List Char} (printed : 32 ≤ c.toNat) (quote : c ≠ '"') (slash : c ≠ '\\')
      (rest : Escaped cs) : Escaped (c :: cs)
  | short {c : Char} {cs : List Char} {p : Nat} (escape : shortEscape? c = some p)
      (rest : Escaped cs) : Escaped ('\\' :: c :: cs)
  | unit {digits cs : List Char} {n : Nat} (length : digits.length = 4)
      (escape : ∀ c more, readUnit (digits ++ c :: more) = some (n, c :: more))
      (rest : Escaped cs) : Escaped ('\\' :: 'u' :: digits ++ cs)

theorem Escaped.append {cs ds : List Char} (hc : Escaped cs) (hd : Escaped ds) :
    Escaped (cs ++ ds) := by
  induction hc with
  | nil => exact hd
  | plain printed quote slash _ ih => exact .plain printed quote slash ih
  | short escape _ ih => exact .short escape ih
  | unit length escape _ ih =>
    simp only [List.cons_append, List.append_assoc]
    exact .unit length escape ih

/-- What reading one escape leaves is no longer and as good. -/
theorem Escaped.unicode {digits cs : List Char} {n : Nat}
    (hescape : ∀ c more, readUnit (digits ++ c :: more) = some (n, c :: more)) (hcs : Escaped cs) :
    ∃ p ds, Escaped ds ∧ ds.length ≤ cs.length ∧ ∀ rest,
      readUnicodeEscape (digits ++ (cs ++ '"' :: rest)) = .ok (p, ds ++ '"' :: rest) := by
  cases hcs with
  | nil =>
    refine ⟨n, [], .nil, Nat.le_refl _, fun rest => ?_⟩
    simp [readUnicodeEscape, hescape]
  | @plain c cs printed quote slash hrest =>
    refine ⟨n, c :: cs, .plain printed quote slash hrest, Nat.le_refl _, fun rest => ?_⟩
    simp [readUnicodeEscape, hescape, slash]
  | @short c cs p escape hrest =>
    have hu := shortEscape?_ne_u escape
    refine ⟨n, '\\' :: c :: cs, .short escape hrest, Nat.le_refl _, fun rest => ?_⟩
    simp [readUnicodeEscape, hescape, hu]
  | @unit second cs m length escape hrest =>
    have htail (rest : List Char) : readUnit (second ++ (cs ++ '"' :: rest)) =
        some (m, cs ++ '"' :: rest) := by
      obtain ⟨c, more, htail⟩ : ∃ c more, cs ++ '"' :: rest = c :: more :=
        List.exists_cons_of_ne_nil (by simp)
      rw [htail, escape]
    have hlong (rest : List Char) : (second ++ (cs ++ '"' :: rest)).length > 4 := by
      simp only [List.length_append, List.length_cons, length]
      omega
    by_cases hpair : isHighSurrogate n = true ∧ isLowSurrogate m = true
    · have hshorter : cs.length ≤ ('\\' :: 'u' :: second ++ cs).length := by
        simp only [List.length_append]
        omega
      refine ⟨joinSurrogates n m, cs, hrest, hshorter, fun rest => ?_⟩
      simp only [readUnicodeEscape, List.cons_append, List.append_assoc, hescape, hpair, hlong, htail,
        and_self, if_true]
    · refine ⟨n, '\\' :: 'u' :: second ++ cs, .unit length escape hrest, Nat.le_refl _, ?_⟩
      intro rest
      simp only [readUnicodeEscape, List.cons_append, List.append_assoc, hescape, hlong, htail,
        and_true]
      split
      · next hhigh =>
        have hlow : isLowSurrogate m = false := by simpa [hhigh] using hpair
        simp [hlow]
      · rfl

/-- Such a text is read up to the closing quote. -/
theorem Escaped.readPoints {cs : List Char} (h : Escaped cs) :
    ∃ ps, ∀ opening fuel rest held, cs.length < fuel →
      Json.readPoints opening fuel (cs ++ '"' :: rest) held = .ok (held.reverse ++ ps, rest) := by
  -- On the length, not on the escapes: a pair of surrogates takes two of them in one step.
  induction hn : cs.length using Nat.strongRecOn generalizing cs with
  | _ n ih =>
    subst hn
    cases h with
    | nil =>
      refine ⟨[], fun opening fuel rest held hfuel => ?_⟩
      obtain ⟨fuel, rfl⟩ : ∃ k, fuel = k + 1 := ⟨fuel - 1, by omega⟩
      simp [Json.readPoints]
    | @plain c cs printed quote slash hrest =>
      obtain ⟨ps, hps⟩ := ih cs.length (by simp) hrest rfl
      refine ⟨c.toNat :: ps, fun opening fuel rest held hfuel => ?_⟩
      obtain ⟨fuel, rfl⟩ : ∃ k, fuel = k + 1 := ⟨fuel - 1, by omega⟩
      rw [List.cons_append, readPoints_plain printed quote slash,
        hps opening fuel rest _ (by simpa using hfuel)]
      simp
    | @short c cs p escape hrest =>
      obtain ⟨ps, hps⟩ := ih cs.length (by simp only [List.length_cons]; omega) hrest rfl
      refine ⟨p :: ps, fun opening fuel rest held hfuel => ?_⟩
      obtain ⟨fuel, rfl⟩ : ∃ k, fuel = k + 1 := ⟨fuel - 1, by omega⟩
      simp only [List.length_cons] at hfuel
      rw [List.cons_append, List.cons_append, readPoints_short escape,
        hps opening fuel rest _ (by omega)]
      simp
    | @unit digits cs n length escape hrest =>
      obtain ⟨p, ds, hds, hle, hread⟩ := hrest.unicode escape
      obtain ⟨ps, hps⟩ := ih ds.length (by simp only [List.length_append, List.length_cons]; omega) hds rfl
      refine ⟨p :: ps, fun opening fuel rest held hfuel => ?_⟩
      obtain ⟨fuel, rfl⟩ : ∃ k, fuel = k + 1 := ⟨fuel - 1, by omega⟩
      simp only [List.length_append, List.length_cons] at hfuel
      rw [List.append_assoc, List.cons_append, List.cons_append, readPoints_unicode (hread rest),
        hps opening fuel rest _ (by omega)]
      simp

theorem toDigits_hex {n : Nat} {c : Char} (h : c ∈ Nat.toDigits 16 n) :
    ∃ d, d < 16 ∧ c = Nat.digitChar d := by
  induction n using Nat.strongRecOn with
  | _ n ih =>
    by_cases hn : n < 16
    · rw [Nat.toDigits_of_lt_base hn] at h
      exact ⟨n, hn, List.mem_singleton.mp h⟩
    · rw [Nat.toDigits_of_base_le (by decide) (by omega)] at h
      rcases List.mem_append.mp h with h | h
      · exact ih (n / 16) (by omega) h
      · exact ⟨n % 16, by omega, List.mem_singleton.mp h⟩

theorem hexDigits4_hex {n : Nat} {c : Char} (h : c ∈ hexDigits4 n) :
    ∃ d, d < 16 ∧ c = Nat.digitChar d := by
  rcases List.mem_append.mp h with h | h
  · exact ⟨0, by decide, (List.mem_replicate.mp h).2⟩
  · exact toDigits_hex h

/-- Characters that need no escape. -/
def IsVerbatim (c : Char) : Prop :=
  32 ≤ c.toNat ∧ c ≠ '"' ∧ c ≠ '\\'

instance (c : Char) : Decidable (IsVerbatim c) :=
  inferInstanceAs (Decidable (_ ∧ _))

theorem Escaped.verbatim {cs : List Char} (h : ∀ c ∈ cs, IsVerbatim c) : Escaped cs := by
  induction cs with
  | nil => exact .nil
  | cons c cs ih =>
    obtain ⟨⟨hprinted, hquote, hslash⟩, hcs⟩ := List.forall_mem_cons.mp h
    exact .plain hprinted hquote hslash (ih hcs)

theorem isVerbatim_digitChar {d : Nat} (hd : d < 16) : IsVerbatim (Nat.digitChar d) := by
  have hall : ∀ d : Fin 16, IsVerbatim (Nat.digitChar d.val) := by decide
  exact hall ⟨d, hd⟩

/-- The first four digits of a number make an escape, and further ones stand for themselves. -/
theorem escaped_hexDigits4 (n : Nat) : Escaped ('\\' :: 'u' :: hexDigits4 n) := by
  have hhex := fun c (h : c ∈ hexDigits4 n) => hexDigits4_hex h
  have hlong : 4 ≤ (hexDigits4 n).length := by
    simp [hexDigits4, Text.hexDigits]
    omega
  generalize hexDigits4 n = digits at hhex hlong
  match digits, hlong with
  | a :: b :: c :: d :: more, _ =>
    simp only [List.forall_mem_cons] at hhex
    obtain ⟨⟨a, ha, rfl⟩, ⟨b, hb, rfl⟩, ⟨c, hc, rfl⟩, ⟨d, hd, rfl⟩, hmore⟩ := hhex
    have hread (x : Char) (rest : List Char) : readUnit ([Nat.digitChar a, Nat.digitChar b,
        Nat.digitChar c, Nat.digitChar d] ++ x :: rest) =
        some (((a * 16 + b) * 16 + c) * 16 + d, x :: rest) := by
      simp [readUnit, hexValue?_digitChar, ha, hb, hc, hd]
    refine .unit rfl hread (.verbatim fun c hc => ?_)
    obtain ⟨d, hd, rfl⟩ := hmore c hc
    exact isVerbatim_digitChar hd

theorem escaped_escapePoint (n : Nat) : Escaped (escapePoint n) := by
  unfold escapePoint
  split
  · exact escaped_hexDigits4 n
  · exact (escaped_hexDigits4 _).append (escaped_hexDigits4 _)

theorem escaped_writePoint {style : Style} (hs : style.escapeAll = true) (n : Nat) :
    Escaped (writePoint style n) := by
  unfold writePoint
  split_ifs with h34 h92 h10 h13 h9 h12 h8 hescape
  iterate 7 exact .short rfl .nil
  · exact escaped_escapePoint n
  · have hrange : 32 ≤ n ∧ n < 127 := by
      simp only [hs, true_and, not_or] at hescape
      omega
    have hscalar : IsScalar n := .inl (by omega)
    have hvalue : (Char.ofNat n).toNat = n := toNat_ofNat hscalar
    obtain ⟨hquote, hslash⟩ := ofNat_plain hscalar h34 h92
    exact .plain (by omega) hquote hslash .nil

theorem escapeAll_line : Style.line.escapeAll = true :=
  rfl

theorem escaped_points {style : Style} (hs : style.escapeAll = true) (ps : List Nat) :
    Escaped (ps.flatMap (writePoint style)) := by
  induction ps with
  | nil => exact .nil
  | cons n ps ih =>
    rw [List.flatMap_cons]
    exact (escaped_writePoint hs n).append ih

end ProductLock.Json
