import ProductLock.Proofs.Json.Exact
import ProductLock.Proofs.Json.Limit

namespace ProductLock.Json

open Numeral

variable {cs rest : List Char} {held ps : List Nat} {p : Nat} {v : Value}

theorem hexValue?_lt {c : Char} {n : Nat} (h : hexValue? c = some n) : n < 16 := by
  unfold hexValue? at h
  split at h
  · next hdigit =>
    have hbounds := bounds_of_isDigit hdigit
    cases h
    change c.toNat - 48 < 16
    omega
  · split at h
    · next hletter =>
      have hle : c.toNat ≤ 102 := hletter.2
      cases h
      change c.toNat - 97 + 10 < 16
      omega
    · split at h
      · next hletter =>
        have hle : c.toNat ≤ 70 := hletter.2
        cases h
        change c.toNat - 65 + 10 < 16
        omega
      · contradiction

theorem readUnit_lt {n : Nat} (h : readUnit cs = some (n, rest)) : n < 0x10000 := by
  unfold readUnit at h
  split at h
  · simp only [Option.bind_eq_bind, Option.bind_eq_some_iff, Option.pure_def, Option.some.injEq,
      Prod.mk.injEq] at h
    obtain ⟨a, ha, b, hb, c, hc, d, hd, rfl, -⟩ := h
    have := hexValue?_lt ha
    have := hexValue?_lt hb
    have := hexValue?_lt hc
    have := hexValue?_lt hd
    omega
  · contradiction

theorem readUnit_length {n : Nat} (h : readUnit cs = some (n, rest)) : cs.length > 4 := by
  unfold readUnit at h
  split at h
  · simp
  · contradiction

/-- An escape is read with the next one, as the code point of both, or alone, and then the next one
does not make a pair with it. -/
theorem readUnicodeEscape_ok (h : readUnicodeEscape cs = .ok (p, rest)) :
    (∃ high low, isHighSurrogate high = true ∧ isLowSurrogate low = true ∧
      p = joinSurrogates high low) ∨
    (readUnit cs = some (p, rest) ∧ (isHighSurrogate p = true → ∀ more n after,
      rest = '\\' :: 'u' :: more → readUnit more = some (n, after) → isLowSurrogate n = false)) := by
  unfold readUnicodeEscape at h
  split at h
  · contradiction
  · next high tail hunit =>
    split at h
    · next more =>
      split at h
      · next hcond =>
        split at h
        · contradiction
        · next low after hlow =>
          split at h
          · next hpair =>
            obtain ⟨hp, -⟩ := Prod.mk.inj (Except.ok.inj h)
            exact .inl ⟨high, low, hcond.1, hpair, hp.symm⟩
          · next hpair =>
            cases h
            refine .inr ⟨hunit, ?_⟩
            rintro - _ n _ ⟨⟩ hn
            rw [hlow] at hn
            cases hn
            simpa using hpair
      · next hcond =>
        cases h
        refine .inr ⟨hunit, ?_⟩
        rintro hhigh _ n _ ⟨⟩ hn
        exact absurd ⟨hhigh, readUnit_length hn⟩ hcond
    · next hother =>
      cases h
      refine .inr ⟨hunit, ?_⟩
      rintro - more n _ rfl -
      exact absurd rfl (hother more)

theorem le_joinSurrogates (high low : Nat) : 0x10000 ≤ joinSurrogates high low := by
  unfold joinSurrogates
  omega

theorem joinSurrogates_lt {high low : Nat} (hhigh : isHighSurrogate high = true)
    (hlow : isLowSurrogate low = true) : joinSurrogates high low < 0x110000 := by
  simp only [isHighSurrogate, isLowSurrogate, Bool.and_eq_true, decide_eq_true_eq] at hhigh hlow
  unfold joinSurrogates
  omega

theorem not_surrogate_join (high low : Nat) : isHighSurrogate (joinSurrogates high low) = false ∧
    isLowSurrogate (joinSurrogates high low) = false := by
  have hlarge := le_joinSurrogates high low
  simp only [isHighSurrogate, isLowSurrogate, Bool.and_eq_false_iff, decide_eq_false_iff_not]
  omega

theorem readUnicodeEscape_lt (h : readUnicodeEscape cs = .ok (p, rest)) : p < 0x110000 := by
  rcases readUnicodeEscape_ok h with ⟨high, low, hhigh, hlow, hp⟩ | ⟨hunit, -⟩
  · rw [hp]
    exact joinSurrogates_lt hhigh hlow
  · have := readUnit_lt hunit
    omega

/-- After a high surrogate there is no escape of a low one. -/
theorem readUnicodeEscape_apart (h : readUnicodeEscape cs = .ok (p, '\\' :: 'u' :: rest))
    (hhigh : isHighSurrogate p = true) {n : Nat} {after : List Char}
    (hnext : readUnicodeEscape rest = .ok (n, after)) : isLowSurrogate n = false := by
  rcases readUnicodeEscape_ok h with ⟨high, low, -, -, hp⟩ | ⟨-, hapart⟩
  · rw [hp, (not_surrogate_join high low).1] at hhigh
    contradiction
  · rcases readUnicodeEscape_ok hnext with ⟨high, low, -, -, hn⟩ | ⟨hunit, -⟩
    · rw [hn]
      exact (not_surrogate_join high low).2
    · exact hapart hhigh rest n after rfl hunit

/-- Code points that were read, the last one first, in front of what is left of the text. -/
structure Pending (held : List Nat) (cs : List Char) : Prop where
  point : ∀ n ∈ held, n < 0x110000
  apart : held.IsChain fun n m => ¬ (isHighSurrogate m = true ∧ isLowSurrogate n = true)
  next : ∀ m more n after, held.head? = some m → isHighSurrogate m = true →
    cs = '\\' :: 'u' :: more → readUnicodeEscape more = .ok (n, after) → isLowSurrogate n = false

theorem pending_nil (cs : List Char) : Pending [] cs :=
  ⟨nofun, .nil, nofun⟩

theorem Pending.plain (h : Pending held cs) (hp : p < 0x110000) (hhigh : isHighSurrogate p = false)
    (hlow : isLowSurrogate p = false) (rest : List Char) : Pending (p :: held) rest := by
  refine ⟨List.forall_mem_cons.mpr ⟨hp, h.point⟩, ?_, ?_⟩
  · refine List.isChain_cons.mpr ⟨?_, h.apart⟩
    simp [hlow]
  · rintro m - - - ⟨⟩ hm
    rw [hhigh] at hm
    contradiction

theorem Pending.escape (h : Pending held ('\\' :: 'u' :: cs))
    (hread : readUnicodeEscape cs = .ok (p, rest)) : Pending (p :: held) rest := by
  refine ⟨List.forall_mem_cons.mpr ⟨readUnicodeEscape_lt hread, h.point⟩, ?_, ?_⟩
  · refine List.isChain_cons.mpr ⟨?_, h.apart⟩
    rintro m hm ⟨hhigh, hlow⟩
    rw [h.next m cs p rest hm hhigh rfl hread] at hlow
    contradiction
  · rintro m more n after ⟨⟩ hhigh rfl hnext
    exact readUnicodeEscape_apart hread hhigh hnext

theorem not_surrogate_short {c : Char} (h : shortEscape? c = some p) :
    p < 0x110000 ∧ isHighSurrogate p = false ∧ isLowSurrogate p = false := by
  unfold shortEscape? at h
  split at h <;> cases h <;> decide

theorem not_surrogate_char (c : Char) : c.toNat < 0x110000 ∧ isHighSurrogate c.toNat = false ∧
    isLowSurrogate c.toNat = false := by
  have hscalar := isScalar_toNat c
  unfold IsScalar at hscalar
  simp only [isHighSurrogate, isLowSurrogate, Bool.and_eq_false_iff, decide_eq_false_iff_not]
  omega

theorem Pending.points {opening : List Char} {fuel : Nat} (h : Pending held cs)
    (hread : readPoints opening fuel cs held = .ok (ps, rest)) :
    (∀ n ∈ ps, n < 0x110000) ∧
      ps.IsChain fun m n => ¬ (isHighSurrogate m = true ∧ isLowSurrogate n = true) := by
  fun_induction readPoints opening fuel cs held with
  | case1 => contradiction
  | case2 => contradiction
  | case3 =>
    cases hread
    exact ⟨fun n hn => h.point n (List.mem_reverse.mp hn), List.isChain_reverse.mpr h.apart⟩
  | case4 => contradiction
  | case5 => contradiction
  | case6 _ _ _ p _ hescape ih => exact ih (h.escape hescape) hread
  | case7 => contradiction
  | case8 _ _ tail _ _ p hshort ih =>
    obtain ⟨hp, hhigh, hlow⟩ := not_surrogate_short hshort
    exact ih (h.plain hp hhigh hlow tail) hread
  | case9 => contradiction
  | case10 _ c tail _ _ _ _ _ _ ih =>
    obtain ⟨hp, hhigh, hlow⟩ := not_surrogate_char c
    exact ih (h.plain hp hhigh hlow tail) hread

theorem isString_of_readString {fuel : Nat} (h : readString fuel cs = .ok (v, rest)) :
    IsString v := by
  unfold readString at h
  split at h
  · contradiction
  · next ps _ hread =>
    obtain ⟨hpoint, hapart⟩ := (pending_nil cs).points hread
    cases h
    unfold Value.ofPoints
    split
    · next hany => exact .points ⟨hpoint, List.any_eq_true.mp hany, hapart⟩
    · exact .text _

/-- Somewhere in a value there is a double. -/
inductive HasDouble : Value → Prop
  | double (x : Double) : HasDouble (.double x)
  | list {vs : List Value} {v : Value} (hv : v ∈ vs) (h : HasDouble v) : HasDouble (.list vs)
  | map {es : List (Value × Value)} {e : Value × Value} (he : e ∈ es) (h : HasDouble e.2) :
      HasDouble (.map es)

/-- A value that a text can be read as. -/
def Readable (v : Value) : Prop :=
  HasDouble v ∨ Exact v

theorem whole_splitWhole (h : (splitWhole cs).1 ≠ []) : Whole (splitWhole cs).1 := by
  refine ⟨⟨h, (splitWhole_spec cs).2⟩, ?_⟩
  unfold splitWhole
  split
  · exact fun _ => rfl
  · next hzero =>
    rw [takeDigits_eq]
    intro hhead
    cases cs with
    | nil => contradiction
    | cons c cs =>
      simp only [List.takeWhile_cons] at hhead
      split at hhead
      · cases hhead
        exact absurd rfl (hzero cs)
      · contradiction

theorem readable_afterWhole {negative : Bool} {whole : List Char} (hw : Whole whole)
    (h : afterWhole negative whole cs = .ok (v, rest)) : Readable v := by
  unfold afterWhole at h
  dsimp only at h
  split at h
  · split at h
    · contradiction
    · next hlength =>
      have hfits : fits (Nat.ofDigitChars 10 whole 0) = true := by
        unfold fits digitCount
        rw [hw.write_ofDigitChars, decide_eq_true_eq]
        exact Nat.not_lt.mp hlength
      cases h
      refine .inr (.int ?_)
      cases negative <;> simpa using hfits
  · cases h
    exact .inl (.double _)

theorem readable_readNumeral {negative : Bool} {start : List Char}
    (h : readNumeral negative start cs = .ok (v, rest)) : Readable v := by
  rw [readNumeral_eq] at h
  split at h
  · contradiction
  · next hdigits => exact readable_afterWhole (whole_splitWhole hdigits) h

theorem readable_literals : ∀ e ∈ literals, Readable e.2 := by
  simp [literals, Readable, Exact.null, Exact.bool, HasDouble.double]

theorem readable_readScalar (h : readScalar cs = .ok (v, rest)) : Readable v := by
  unfold readScalar at h
  split at h
  · next result hresult =>
    obtain ⟨⟨word, v⟩, hmem, hdrop⟩ := List.exists_of_findSome?_eq_some hresult
    obtain ⟨rest, -, rfl⟩ := Option.map_eq_some_iff.mp hdrop
    cases h
    exact readable_literals _ hmem
  · split at h
    · exact readable_readNumeral h
    · exact readable_readNumeral h

theorem readable_list {vs : List Value} (h : ∀ v ∈ vs, Readable v) : Readable (.list vs) := by
  by_cases hdouble : ∃ v ∈ vs, HasDouble v
  · obtain ⟨v, hv, hdouble⟩ := hdouble
    exact .inl (.list hv hdouble)
  · exact .inr (.list fun v hv => (h v hv).resolve_left fun hv' => hdouble ⟨v, hv, hv'⟩)

/-- The members of an object as they are kept while it is read. -/
structure Members (es : List (Value × Value)) : Prop where
  keys : (es.map Prod.fst).Nodup
  string : ∀ e ∈ es, IsString e.1
  readable : ∀ e ∈ es, Readable e.2

theorem members_nil : Members [] :=
  ⟨.nil, nofun, nofun⟩

theorem readable_map {es : List (Value × Value)} (h : Members es) : Readable (.map es) := by
  by_cases hdouble : ∃ e ∈ es, HasDouble e.2
  · obtain ⟨e, he, hdouble⟩ := hdouble
    exact .inl (.map he hdouble)
  · exact .inr (.map h.keys h.string fun e he =>
      (h.readable e he).resolve_left fun he' => hdouble ⟨e, he, he'⟩)

theorem IsString.sameKey_self (h : IsString v) : v.sameKey v = true := by
  cases h <;> simp [Value.sameKey]

/-- A key that is there keeps its place, another goes last. -/
theorem put_cases (key value : Value) (es : List (Value × Value)) :
    ((∀ e ∈ es, e.1.sameKey key = false) ∧ Value.put key value es = es ++ [(key, value)]) ∨
    ∃ before k old after, es = before ++ (k, old) :: after ∧
      Value.put key value es = before ++ (k, value) :: after := by
  induction es with
  | nil => exact .inl ⟨nofun, rfl⟩
  | cons e es ih =>
    obtain ⟨k, old⟩ := e
    rw [Value.put]
    cases hsame : k.sameKey key with
    | true => exact .inr ⟨[], k, old, es, rfl, rfl⟩
    | false =>
      rcases ih with ⟨hnew, hput⟩ | ⟨before, l, other, after, rfl, hput⟩
      · exact .inl ⟨List.forall_mem_cons.mpr ⟨hsame, hnew⟩, by simp [hput]⟩
      · exact .inr ⟨(k, old) :: before, l, other, after, rfl, by simp [hput]⟩

theorem Members.put {key value : Value} {es : List (Value × Value)} (h : Members es)
    (hkey : IsString key) (hvalue : Readable value) : Members (Value.put key value es) := by
  rcases put_cases key value es with ⟨hnew, hput⟩ | ⟨before, k, old, after, rfl, hput⟩
  · rw [hput]
    refine ⟨?_, List.forall_mem_append.mpr ⟨h.string, by simpa using hkey⟩,
      List.forall_mem_append.mpr ⟨h.readable, by simpa using hvalue⟩⟩
    rw [List.map_append, List.map_singleton]
    refine List.nodup_append.mpr ⟨h.keys, List.pairwise_singleton _ _, ?_⟩
    rintro l hl _ hlast rfl
    obtain rfl := List.mem_singleton.mp hlast
    obtain ⟨e, he, heq⟩ := List.mem_map.mp hl
    have hsame := hnew e he
    rw [heq, hkey.sameKey_self] at hsame
    contradiction
  · obtain ⟨hkeys, hstring, hreadable⟩ := h
    rw [hput]
    simp only [List.forall_mem_append, List.forall_mem_cons] at hstring hreadable
    refine ⟨by simpa using hkeys, List.forall_mem_append.mpr ?_, List.forall_mem_append.mpr ?_⟩
    · exact ⟨hstring.1, List.forall_mem_cons.mpr hstring.2⟩
    · exact ⟨hreadable.1, List.forall_mem_cons.mpr ⟨hvalue, hreadable.2.2⟩⟩

-- The induction is on the fuel. Of what was read before, a reader needs that it is readable.
mutual

theorem readable_readValue (fuel : Nat) {cs rest : List Char} {v : Value}
    (h : readValue fuel cs = .ok (v, rest)) : Readable v := by
  match fuel with
  | 0 =>
    rw [readValue] at h
    contradiction
  | fuel + 1 =>
    unfold readValue at h
    split at h
    · exact .inr (.string (isString_of_readString h))
    · split at h
      · cases h
        exact readable_list nofun
      · exact readable_readItems fuel (List.forall_mem_nil _) h
    · split at h
      · cases h
        exact readable_map members_nil
      · exact readable_readMembers fuel members_nil h
    · exact readable_readScalar h

theorem readable_readItems (fuel : Nat) {cs rest : List Char} {held : List Value} {v : Value}
    (hheld : ∀ v ∈ held, Readable v) (h : readItems fuel cs held = .ok (v, rest)) : Readable v := by
  match fuel with
  | 0 =>
    rw [readItems] at h
    contradiction
  | fuel + 1 =>
    unfold readItems at h
    split at h
    · contradiction
    · next item tail hread =>
      have hitems := List.forall_mem_cons.mpr ⟨readable_readValue fuel hread, hheld⟩
      split at h
      · cases h
        exact readable_list fun v hv => hitems v (List.mem_reverse.mp hv)
      · exact readable_readItems fuel hitems h
      · contradiction

theorem readable_readMembers (fuel : Nat) {cs rest : List Char} {held : List (Value × Value)}
    {v : Value} (hheld : Members held) (h : readMembers fuel cs held = .ok (v, rest)) : Readable v := by
  match fuel with
  | 0 =>
    rw [readMembers] at h
    contradiction
  | fuel + 1 =>
    unfold readMembers at h
    split at h
    · split at h
      · contradiction
      · next key tail hkey =>
        split at h
        · split at h
          · contradiction
          · next value more hread =>
            have hmembers := hheld.put (isString_of_readString hkey) (readable_readValue fuel hread)
            split at h
            · cases h
              exact readable_map hmembers
            · exact readable_readMembers fuel hmembers h
            · contradiction
        · contradiction
    · contradiction

end

theorem readable_of_parse {s : String} (h : parse s = .ok v) : Readable v := by
  unfold parse readDocument at h
  split at h
  · contradiction
  · split at h
    · contradiction
    · next hread =>
      split at h
      · cases h
        exact readable_readValue _ hread
      · contradiction

theorem Exact.not_hasDouble (h : Exact v) : ¬ HasDouble v := by
  induction h with
  | null | bool | int => nofun
  | string h =>
    cases h <;> nofun
  | list _ ih =>
    rintro (_ | ⟨hv, hdouble⟩)
    exact ih _ hv hdouble
  | map _ _ _ ih =>
    rintro (_ | _ | ⟨he, hdouble⟩)
    exact ih _ he hdouble

/-- The exact values are those that texts are read as, but for doubles. -/
theorem exact_iff : Exact v ↔ ¬ HasDouble v ∧ ∃ s, parse s = .ok v := by
  constructor
  · intro h
    have hparse : parse (render .page v ++ "") = .ok v := h.parse_render rfl nofun
    exact ⟨h.not_hasDouble, _, hparse⟩
  · rintro ⟨hdouble, s, h⟩
    exact (readable_of_parse h).resolve_left hdouble

end ProductLock.Json
