import Mathlib.Data.List.Infix
import ProductLock.Proofs.Json.Document

namespace ProductLock.Json

open Numeral

/-- Somewhere in a text, so many digits stand in a row. -/
def HasRun (n : Nat) (cs : List Char) : Prop :=
  ∃ ds, ds <:+: cs ∧ ds.length = n ∧ ∀ c ∈ ds, c.isDigit = true

/-- What comes of reading a text from its front: an end of the text is left, or there is a complaint,
or somewhere in the text stands an integer beyond the limit. -/
inductive Within (cs : List Char) : Reading α → Prop where
  | read {a : α} (h : rest <:+ cs) : Within cs (.ok (a, rest))
  | complaint {c : Complaint} : Within cs (.error (.syntaxError c rest))
  | digits (h : HasRun n cs) (hn : digitLimit < n) : Within cs (.error (.digits n))

variable {α : Type} {cs ds rest : List Char}

/-- What reading an end of a text comes to, reading the whole text may come to. -/
theorem Within.of_suffix {r : Reading α} (h : Within ds r) (hs : ds <:+ cs) : Within cs r := by
  cases h with
  | read hrest => exact .read (hrest.trans hs)
  | complaint => exact .complaint
  | digits hrun hn =>
    obtain ⟨run, hin, hlength, hdigits⟩ := hrun
    exact .digits ⟨run, hin.trans hs.isInfix, hlength, hdigits⟩ hn

theorem Within.rest_suffix {a : α} (h : Within cs (.ok (a, rest))) : rest <:+ cs := by
  cases h
  assumption

theorem Within.stop {β : Type} {stop : Stop} (h : Within cs (.error stop : Reading α)) :
    Within cs (.error stop : Reading β) := by
  cases h with
  | complaint => exact .complaint
  | digits hrun hn => exact .digits hrun hn

theorem skipSpace_suffix (cs : List Char) : skipSpace cs <:+ cs :=
  List.dropWhile_suffix isSpace

theorem takeDigits_eq (cs : List Char) : takeDigits cs =
    (cs.takeWhile Char.isDigit, cs.dropWhile Char.isDigit) :=
  List.span_eq_takeWhile_dropWhile Char.isDigit cs

theorem readFraction_suffix (cs : List Char) : (readFraction cs).2 <:+ cs := by
  unfold readFraction
  split
  · next rest =>
    rw [takeDigits_eq]
    dsimp only
    split
    · exact List.suffix_rfl
    · exact (List.dropWhile_suffix _).trans (List.suffix_cons _ _)
  · exact List.suffix_rfl

theorem readExponentSign_suffix (cs : List Char) : (readExponentSign cs).2 <:+ cs := by
  unfold readExponentSign
  split
  · exact List.suffix_cons _ _
  · exact List.suffix_cons _ _
  · exact List.suffix_rfl

theorem readExponent_suffix (cs : List Char) : (readExponent cs).2 <:+ cs := by
  unfold readExponent
  split
  · next c tail =>
    have hsign := readExponentSign_suffix tail
    split
    · rcases h : readExponentSign tail with ⟨negative, afterSign⟩
      rw [h] at hsign
      dsimp only
      rw [takeDigits_eq]
      dsimp only
      split
      · exact List.suffix_rfl
      · exact (List.dropWhile_suffix _).trans (hsign.trans (List.suffix_cons c tail))
    · exact List.suffix_rfl
  · exact List.suffix_rfl

theorem within_afterWhole (negative : Bool) {whole : List Char} (tail : List Char)
    (hw : ∀ c ∈ whole, c.isDigit = true) :
    Within (whole ++ tail) (afterWhole negative whole tail) := by
  rcases hf : readFraction tail with ⟨fraction, afterFraction⟩
  rcases he : readExponent afterFraction with ⟨exponent, afterExponent⟩
  have hfraction : afterFraction <:+ tail := by simpa [hf] using readFraction_suffix tail
  have hexponent : afterExponent <:+ afterFraction := by
    simpa [he] using readExponent_suffix afterFraction
  have hrest := (hexponent.trans hfraction).trans (List.suffix_append whole tail)
  simp only [afterWhole, hf, he]
  split
  · split
    · next hlong =>
      exact .digits ⟨whole, (List.prefix_append whole tail).isInfix, rfl, hw⟩ hlong
    · exact .read hrest
  · exact .read hrest

theorem splitWhole_spec (cs : List Char) : (splitWhole cs).1 ++ (splitWhole cs).2 = cs ∧
    ∀ c ∈ (splitWhole cs).1, c.isDigit = true := by
  unfold splitWhole
  split
  · exact ⟨rfl, by simp⟩
  · rw [takeDigits_eq]
    exact ⟨List.takeWhile_append_dropWhile, fun c hc => List.mem_takeWhile_imp hc⟩

theorem within_readNumeral (negative : Bool) (start cs : List Char) :
    Within cs (readNumeral negative start cs) := by
  obtain ⟨hcs, hdigits⟩ := splitWhole_spec cs
  rw [readNumeral_eq]
  split
  · exact .complaint
  · have hwhole := within_afterWhole negative (splitWhole cs).2 hdigits
    rwa [hcs] at hwhole

theorem within_readScalar (cs : List Char) : Within cs (readScalar cs) := by
  unfold readScalar
  split
  · next result hresult =>
    obtain ⟨⟨word, v⟩, _, hdrop⟩ := List.exists_of_findSome?_eq_some hresult
    obtain ⟨rest, hrest, rfl⟩ := Option.map_eq_some_iff.mp hdrop
    unfold dropWord? at hrest
    split at hrest
    · cases hrest
      exact .read (List.drop_suffix _ _)
    · contradiction
  · split
    · exact (within_readNumeral _ _ _).of_suffix (List.suffix_cons _ _)
    · exact within_readNumeral _ _ _

theorem readUnit_suffix {n : Nat} (h : readUnit cs = some (n, rest)) : rest <:+ cs := by
  unfold readUnit at h
  split at h
  · next a b c d e more =>
    simp only [Option.bind_eq_bind, Option.bind_eq_some_iff, Option.pure_def, Option.some.injEq,
      Prod.mk.injEq] at h
    obtain ⟨_, _, _, _, _, _, _, _, _, rfl⟩ := h
    exact List.suffix_append [a, b, c, d] (e :: more)
  · contradiction

theorem within_readUnicodeEscape (cs : List Char) : Within cs (readUnicodeEscape cs) := by
  unfold readUnicodeEscape
  split
  · exact .complaint
  · next high rest hhigh =>
    have hrest := readUnit_suffix hhigh
    split
    · next more =>
      split
      · split
        · exact .complaint
        · next low after hlow =>
          split
          · have hmore : more <:+ '\\' :: 'u' :: more := List.suffix_append ['\\', 'u'] more
            exact .read ((readUnit_suffix hlow).trans (hmore.trans hrest))
          · exact .read hrest
      · exact .read hrest
    · exact .read hrest

theorem within_readPoints (opening : List Char) (fuel : Nat) (cs : List Char) (held : List Nat) :
    Within cs (readPoints opening fuel cs held) := by
  have hescape (rest : List Char) : Within ('\\' :: 'u' :: rest) (readUnicodeEscape rest) :=
    (within_readUnicodeEscape rest).of_suffix (List.suffix_append ['\\', 'u'] rest)
  fun_induction readPoints opening fuel cs held with
  | case1 => exact .complaint
  | case2 => exact .complaint
  | case3 _ rest => exact .read (List.suffix_cons '"' rest)
  | case4 => exact .complaint
  | case5 _ rest _ stop hstop => exact (hstop ▸ hescape rest).stop
  | case6 _ rest _ p after hread ih => exact ih.of_suffix (hread ▸ hescape rest).rest_suffix
  | case7 => exact .complaint
  | case8 _ c rest _ _ _ _ ih => exact ih.of_suffix (List.suffix_append ['\\', c] rest)
  | case9 => exact .complaint
  | case10 _ c rest _ _ _ _ _ _ ih => exact ih.of_suffix (List.suffix_cons c rest)

theorem within_readString (fuel : Nat) (cs : List Char) : Within cs (readString fuel cs) := by
  have hpoints := within_readPoints ('"' :: cs) fuel cs []
  unfold readString
  split
  · next stop hstop =>
    rw [hstop] at hpoints
    exact hpoints.stop
  · next ps rest hread =>
    rw [hread] at hpoints
    exact .read hpoints.rest_suffix

theorem suffix_of_skipSpace {c : Char} (h : skipSpace cs = c :: rest) : rest <:+ cs :=
  (List.suffix_cons c rest).trans (h ▸ skipSpace_suffix cs)

-- The induction is on the fuel. Each reader starts at an end of the text that the one before it left,
-- so what it comes to is within the whole text by `Within.of_suffix`.
mutual

theorem within_readValue (fuel : Nat) (cs : List Char) : Within cs (readValue fuel cs) := by
  match fuel with
  | 0 =>
    rw [readValue]
    exact .complaint
  | fuel + 1 =>
    unfold readValue
    split
    · next rest => exact (within_readString fuel rest).of_suffix (List.suffix_cons _ rest)
    · next rest =>
      split
      · next after h => exact .read ((suffix_of_skipSpace h).trans (List.suffix_cons _ rest))
      · exact (within_readItems fuel _ _).of_suffix
          ((skipSpace_suffix rest).trans (List.suffix_cons _ rest))
    · next rest =>
      split
      · next after h => exact .read ((suffix_of_skipSpace h).trans (List.suffix_cons _ rest))
      · exact (within_readMembers fuel _ _).of_suffix
          ((skipSpace_suffix rest).trans (List.suffix_cons _ rest))
    · exact within_readScalar cs

theorem within_readItems (fuel : Nat) (cs : List Char) (held : List Value) :
    Within cs (readItems fuel cs held) := by
  match fuel with
  | 0 =>
    rw [readItems]
    exact .complaint
  | fuel + 1 =>
    have hitem := within_readValue fuel cs
    unfold readItems
    split
    · next stop hstop => exact (hstop ▸ hitem).stop
    · next v rest hread =>
      have hrest : rest <:+ cs := (hread ▸ hitem).rest_suffix
      split
      · next after h => exact .read ((suffix_of_skipSpace h).trans hrest)
      · next after h =>
        have hafter := (skipSpace_suffix after).trans ((suffix_of_skipSpace h).trans hrest)
        exact (within_readItems fuel _ _).of_suffix hafter
      · exact .complaint

theorem within_readMembers (fuel : Nat) (cs : List Char) (held : List (Value × Value)) :
    Within cs (readMembers fuel cs held) := by
  match fuel with
  | 0 =>
    rw [readMembers]
    exact .complaint
  | fuel + 1 =>
    unfold readMembers
    split
    · next rest =>
      have hname := (within_readString fuel rest).of_suffix (List.suffix_cons '"' rest)
      split
      · next stop hstop => exact (hstop ▸ hname).stop
      · next key tail hread =>
        have htail : tail <:+ '"' :: rest := (hread ▸ hname).rest_suffix
        split
        · next value h =>
          have hvalue := (skipSpace_suffix value).trans ((suffix_of_skipSpace h).trans htail)
          have hmember := (within_readValue fuel (skipSpace value)).of_suffix hvalue
          split
          · next stop hstop => exact (hstop ▸ hmember).stop
          · next v more hread =>
            have hmore : more <:+ '"' :: rest := (hread ▸ hmember).rest_suffix
            split
            · next after h => exact .read ((suffix_of_skipSpace h).trans hmore)
            · next after h =>
              have hafter := (skipSpace_suffix after).trans ((suffix_of_skipSpace h).trans hmore)
              exact (within_readMembers fuel _ _).of_suffix hafter
            · exact .complaint
        · exact .complaint
    · exact .complaint

end

/-- Where reading a document stops at an integer, that integer stands in it and is beyond the limit. -/
theorem hasRun_of_parse {s : String} {n : Nat} (h : parse s = .error (.digits n)) :
    digitLimit < n ∧ HasRun n s.toList := by
  unfold parse readDocument at h
  split at h
  · cases h
  · have hvalue := (within_readValue (2 * s.toList.length + 2) (skipSpace s.toList)).of_suffix
      (skipSpace_suffix s.toList)
    split at h
    · next stop hstop =>
      cases h
      rw [hstop] at hvalue
      cases hvalue with
      | digits hrun hn => exact ⟨hn, hrun⟩
    · split at h <;> cases h

/-- A text of digits that is too long for a number is not read. -/
theorem parse_overlong {ds : List Char} (hw : Whole ds) (hlong : digitLimit < ds.length) :
    parse (String.ofList ds) = .error (.digits ds.length) := by
  obtain ⟨c, cs, hcs⟩ := List.exists_cons_of_ne_nil hw.ne_nil
  have hc : c.isDigit = true := hw.isDigit c (hcs ▸ List.mem_cons_self)
  have hscalar : readScalar ds = .error (.digits ds.length) := by
    have hsigned := readScalar_signed hc false cs
    have hnumeral := readNumeral_whole hw stops_nil false (c :: cs)
    rw [List.append_nil] at hnumeral
    simp only [Bool.false_eq_true, if_false, List.nil_append, ← hcs] at hsigned hnumeral
    rw [hsigned, hnumeral]
    exact if_pos hlong
  have hmark : c ≠ '\uFEFF' := IsBare.ne (.inl hc) (by decide)
  rw [parse, String.toList_ofList, hcs, readDocument.eq_def]
  split
  · next heq => exact absurd (List.cons.inj heq).1 hmark
  · rw [skipSpace_cons (isSpace_of_bare (.inl hc)), readValue_bare (.inl hc), ← hcs, hscalar]

end ProductLock.Json
