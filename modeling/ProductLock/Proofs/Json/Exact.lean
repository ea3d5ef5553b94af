import Mathlib.Data.List.Chain
import ProductLock.Proofs.Json.Document

namespace ProductLock.Json

/-- Code points of which some are surrogates, and no two next to each other make a pair: a pair is
written and read as the one code point that it stands for. -/
structure Unpaired (ps : List Nat) : Prop where
  point : ∀ n ∈ ps, n < 0x110000
  surrogate : ∃ n ∈ ps, Value.isSurrogate n = true
  apart : ps.IsChain fun m n => ¬ (isHighSurrogate m = true ∧ isLowSurrogate n = true)

/-- What can stand between the quotes of a document. -/
inductive IsString : Value → Prop
  | text (s : String) : IsString (.text s)
  | points {ps : List Nat} (h : Unpaired ps) : IsString (.points ps)

/-- A value that a document can stand for, with no doubles in it and no integer over the limit. Those
are the values that texts are read as, but for doubles. -/
inductive Exact : Value → Prop
  | null : Exact .null
  | bool (b : Bool) : Exact (.bool b)
  | int {i : Int} (h : Numeral.fits i.natAbs = true) : Exact (.int i)
  | string {v : Value} (h : IsString v) : Exact v
  | list {vs : List Value} (h : ∀ v ∈ vs, Exact v) : Exact (.list vs)
  | map {es : List (Value × Value)} (hkeys : (es.map Prod.fst).Nodup)
      (hstring : ∀ e ∈ es, IsString e.1) (h : ∀ e ∈ es, Exact e.2) : Exact (.map es)

theorem readUnicodeEscape_lone {n : Nat} (hn : n < 0x10000) {c : Char} {cs : List Char}
    (hnext : isHighSurrogate n = true → ∀ more, c :: cs = '\\' :: 'u' :: more →
      ∃ m rest, readUnit more = some (m, rest) ∧ isLowSurrogate m = false) :
    readUnicodeEscape (hexDigits4 n ++ c :: cs) = .ok (n, c :: cs) := by
  unfold readUnicodeEscape
  rw [readUnit_hexDigits4 hn]
  dsimp only
  split
  · next more heq =>
    split
    · next hhigh =>
      obtain ⟨m, rest, hread, hlow⟩ := hnext hhigh.1 more heq
      simp [hread, hlow]
    · rfl
  · rfl

theorem cons_escape (high low : List Char) : '\\' :: 'u' :: high ++ '\\' :: 'u' :: low =
    '\\' :: 'u' :: (high ++ '\\' :: 'u' :: low) :=
  rfl

/-- Beyond the first plane an escape begins with that of a high surrogate. -/
theorem escapePoint_large {n : Nat} (hlow : 0x10000 ≤ n) (hhigh : n < 0x110000) :
    ∃ high low, isHighSurrogate high = true ∧
      escapePoint n = '\\' :: 'u' :: (hexDigits4 high ++ low) := by
  obtain ⟨hhigh, -, -⟩ := exists_surrogates hlow hhigh
  refine ⟨_, '\\' :: 'u' :: hexDigits4 (0xDC00 + (n - 0x10000) % 0x400), hhigh, ?_⟩
  unfold escapePoint
  rw [if_neg (Nat.not_lt.mpr hlow)]
  exact cons_escape _ _

/-- What is written for a code point that is no low surrogate begins with no escape of one. -/
theorem escapePoint_unit {n : Nat} (hn : n < 0x110000) (hlow : isLowSurrogate n = false) {c : Char}
    {cs more : List Char} (h : escapePoint n ++ c :: cs = '\\' :: 'u' :: more) :
    ∃ m rest, readUnit more = some (m, rest) ∧ isLowSurrogate m = false := by
  by_cases hsmall : n < 0x10000
  · have hescape : escapePoint n = '\\' :: 'u' :: hexDigits4 n := if_pos hsmall
    rw [hescape] at h
    obtain rfl : hexDigits4 n ++ c :: cs = more := by simpa using h
    exact ⟨n, _, readUnit_hexDigits4 hsmall c cs, hlow⟩
  · obtain ⟨high, low, hhigh, hescape⟩ := escapePoint_large (Nat.not_lt.mp hsmall) hn
    simp only [isHighSurrogate, Bool.and_eq_true, decide_eq_true_eq] at hhigh
    obtain ⟨d, ds, hds⟩ : ∃ d ds, low ++ c :: cs = d :: ds :=
      List.exists_cons_of_ne_nil (by simp)
    rw [hescape] at h
    obtain rfl : hexDigits4 high ++ d :: ds = more := by simpa [hds] using h
    refine ⟨high, _, readUnit_hexDigits4 (by omega) d ds, ?_⟩
    simp only [isLowSurrogate, Bool.and_eq_false_iff, decide_eq_false_iff_not]
    omega

theorem writePoint_unit {style : Style} (hs : style.escapeAll = true) {n : Nat} (hn : n < 0x110000)
    (hlow : isLowSurrogate n = false) {c : Char} {cs more : List Char}
    (h : writePoint style n ++ c :: cs = '\\' :: 'u' :: more) :
    ∃ m rest, readUnit more = some (m, rest) ∧ isLowSurrogate m = false := by
  unfold writePoint at h
  split_ifs at h with h34 h92 h10 h13 h9 h12 h8 hescape
  iterate 7 simp at h
  · exact escapePoint_unit hn hlow h
  · have hscalar : IsScalar n := by
      simp only [hs, true_and, not_or] at hescape
      exact .inl (by omega)
    exact absurd (List.cons.inj h).1 (ofNat_plain hscalar h34 h92).2

/-- One code point is written so that one step reads it, unless it makes a pair with the next. -/
theorem readPoints_step {style : Style} (hs : style.escapeAll = true) {n : Nat} (hn : n < 0x110000)
    {c : Char} {cs : List Char} (hnext : isHighSurrogate n = true → ∀ more,
      c :: cs = '\\' :: 'u' :: more → ∃ m rest, readUnit more = some (m, rest) ∧
        isLowSurrogate m = false) (opening : List Char) (fuel : Nat) (held : List Nat) :
    readPoints opening (fuel + 1) (writePoint style n ++ c :: cs) held =
      readPoints opening fuel (c :: cs) (n :: held) := by
  by_cases hscalar : IsScalar n
  · exact readPoints_writePoint style hscalar opening fuel c cs held
  · have hrange : 0xD800 ≤ n ∧ n ≤ 0xDFFF := by
      unfold IsScalar at hscalar
      omega
    have hescape : n < 32 ∨ (style.escapeAll = true ∧ 127 ≤ n) := .inr ⟨hs, by omega⟩
    have hsmall : n < 0x10000 := by omega
    have hwrite : writePoint style n = '\\' :: 'u' :: hexDigits4 n := by
      unfold writePoint
      rw [if_neg (by omega), if_neg (by omega), if_neg (by omega), if_neg (by omega),
        if_neg (by omega), if_neg (by omega), if_neg (by omega), if_pos hescape, escapePoint,
        if_pos hsmall]
    rw [hwrite]
    exact readPoints_unicode (readUnicodeEscape_lone hsmall hnext) opening fuel held

theorem readPoints_unpaired {style : Style} (hs : style.escapeAll = true) {ps : List Nat}
    (hpoint : ∀ n ∈ ps, n < 0x110000)
    (hapart : ps.IsChain fun m n => ¬ (isHighSurrogate m = true ∧ isLowSurrogate n = true))
    (opening rest : List Char) {fuel : Nat} (hfuel : ps.length < fuel) (held : List Nat) :
    readPoints opening fuel (ps.flatMap (writePoint style) ++ '"' :: rest) held =
      .ok (held.reverse ++ ps, rest) := by
  induction ps generalizing fuel held with
  | nil =>
    obtain ⟨fuel, rfl⟩ : ∃ k, fuel = k + 1 := ⟨fuel - 1, by omega⟩
    simp [readPoints]
  | cons n ps ih =>
    obtain ⟨fuel, rfl⟩ : ∃ k, fuel = k + 1 := ⟨fuel - 1, by omega⟩
    obtain ⟨hn, hpoint⟩ := List.forall_mem_cons.mp hpoint
    have htail (qs : List Nat) : ∃ c cs, qs.flatMap (writePoint style) ++ '"' :: rest = c :: cs :=
      List.exists_cons_of_ne_nil (by simp)
    have hnext (hhigh : isHighSurrogate n = true) (more : List Char)
        (h : ps.flatMap (writePoint style) ++ '"' :: rest = '\\' :: 'u' :: more) :
        ∃ m rest, readUnit more = some (m, rest) ∧ isLowSurrogate m = false := by
      cases ps with
      | nil => simp at h
      | cons m ps =>
        obtain ⟨c, cs, hcs⟩ := htail ps
        have hlow : isLowSurrogate m = false := by
          simpa [hhigh] using (List.isChain_cons_cons.mp hapart).1
        rw [List.flatMap_cons, List.append_assoc, hcs] at h
        exact writePoint_unit hs (hpoint m List.mem_cons_self) hlow h
    obtain ⟨c, cs, hcs⟩ := htail ps
    rw [hcs] at hnext
    rw [List.flatMap_cons, List.append_assoc, hcs, readPoints_step hs hn hnext, ← hcs,
      ih hpoint hapart.tail (by simpa using hfuel)]
    simp

variable {style : Style} {v : Value} {ps : List Nat}

theorem quoted_points (hs : style.escapeAll = true) (h : Unpaired ps) :
    Quoted (writeText style ps) (.points ps) := by
  refine ⟨ps.flatMap (writePoint style), rfl, fun fuel rest hfuel => ?_⟩
  have hlength := Nat.lt_of_le_of_lt (length_le_flatMap style ps) hfuel
  have hany : ps.any Value.isSurrogate = true := List.any_eq_true.mpr h.surrogate
  rw [readString, readPoints_unpaired hs h.point h.apart _ _ hlength]
  simp [Value.ofPoints, hany]

theorem IsString.quoted (h : IsString v) (hs : style.escapeAll = true) :
    Quoted (writeKey style v) v ∧ ∀ depth, writeValue style depth v = writeKey style v := by
  cases h with
  | text s => exact ⟨quoted_text style s, fun _ => rfl⟩
  | points h => exact ⟨quoted_points hs h, fun _ => rfl⟩

theorem IsString.sameKey {k : Value} (hv : IsString v) (hk : IsString k) (hne : v ≠ k) :
    v.sameKey k = false := by
  cases hv with
  | text s =>
    cases hk with
    | text t => simpa [Value.sameKey] using hne
    | points => rfl
  | points =>
    cases hk with
    | text t => rfl
    | points => simpa [Value.sameKey] using hne

theorem apart_of_distinct {es : List (Value × Value)} (hkeys : (es.map Prod.fst).Nodup)
    (hstring : ∀ e ∈ es, IsString e.1) : es.Pairwise fun a b => a.1.sameKey b.1 = false := by
  apply (List.pairwise_map.mp hkeys).imp_of_mem
  intro a b ha hb hne
  exact (hstring a ha).sameKey (hstring b hb) hne

theorem IsString.fault (h : IsString v) : leafFault? v = none ∧ fault? v = none := by
  cases h <;> exact ⟨rfl, rfl⟩

theorem Exact.fault (h : Exact v) : fault? v = none := by
  induction h with
  | null => rfl
  | bool b => rfl
  | int h => simp [fault?, leafFault?, h]
  | string h => exact h.fault.2
  | list _ ih => exact itemsFault?_eq_none.mpr ih
  | map _ hstring _ ih =>
    exact membersFault?_eq_none.mpr fun e he => ⟨(hstring e he).fault.1, ih e he⟩

/-- Such a value is read back as it is. -/
theorem Exact.faithful (h : Exact v) : Faithful v v := by
  have hleaf {v : Value} (hfault : leafFault? v = none) (hplain : isPlain v = true) :
      Faithful v v := by
    obtain ⟨v', hsame, hreads⟩ := exists_leaf hfault
    obtain rfl := hsame hplain
    exact ⟨fun _ => rfl, hreads⟩
  induction h with
  | null => exact hleaf rfl rfl
  | bool b => exact hleaf rfl rfl
  | int h => exact hleaf (by simp [leafFault?, h]) rfl
  | string h =>
    refine ⟨fun _ => rfl, fun style depth hs => ?_⟩
    obtain ⟨hquoted, hwrite⟩ := h.quoted hs
    rw [hwrite]
    exact .of_quoted hquoted
  | list _ ih => exact faithful_list (List.forall₂_same.mpr ih)
  | @map es hkeys hstring _ ih =>
    have hmember : ∀ e ∈ es, FaithfulMember e e := fun e he =>
      ⟨fun _ _ => rfl, fun style hs => ((hstring e he).quoted hs).1, ih e he⟩
    have hfaithful := faithful_map (List.forall₂_same.mpr hmember)
    rwa [putAll_of_apart (apart_of_distinct hkeys hstring)] at hfaithful

/-- A document that holds what JSON can tell apart is read back as it was written. -/
theorem Exact.parse_render (h : Exact v) (hs : style.escapeAll = true) {blanks : String}
    (hb : ∀ c ∈ blanks.toList, isSpace c = true) : parse (render style v ++ blanks) = .ok v :=
  Json.parse_render h.faithful hs hb

/-- Two surrogates that make a pair are in no string of a document: what is written for them is read
as one character. -/
example : readPoints [] 2 ([0xD83D, 0xDE00].flatMap (writePoint .page) ++ ['"']) [] =
    .ok ([0x1F600], []) := by
  decide +kernel

end ProductLock.Json
