import Mathlib.Data.List.TakeWhile
import ProductLock.Proofs.Json.Scalar

namespace ProductLock.Json

open Numeral

mutual

/-- A value that a document gives back as it is: it holds no doubles and no unpaired surrogates, and
the keys of its maps are texts, each of them once. -/
def isPlain : Value → Bool
  | .null | .bool _ | .int _ | .text _ => true
  | .list vs => arePlain vs
  | .map es => membersPlain [] es
  | _ => false

def arePlain : List Value → Bool
  | [] => true
  | v :: vs => isPlain v && arePlain vs

/-- The first argument holds the keys of the members before. -/
def membersPlain (seen : List String) : List (Value × Value) → Bool
  | [] => true
  | (.text s, v) :: es => !seen.contains s && isPlain v && membersPlain (s :: seen) es
  | _ :: _ => false

end

theorem skipSpace_append {blanks : List Char} (hb : ∀ c ∈ blanks, isSpace c = true) {c : Char}
    (hc : isSpace c = false) (cs : List Char) : skipSpace (blanks ++ c :: cs) = c :: cs := by
  rw [skipSpace, List.dropWhile_append_of_pos hb, List.dropWhile_cons, if_neg (by simp [hc])]

theorem skipSpace_cons {c : Char} (hc : isSpace c = false) (cs : List Char) :
    skipSpace (c :: cs) = c :: cs :=
  skipSpace_append (List.forall_mem_nil _) hc cs

theorem isSpace_newline {depth : Nat} : ∀ c ∈ newline depth, isSpace c = true := by
  refine List.forall_mem_cons.mpr ⟨rfl, fun c hc => ?_⟩
  rw [(List.mem_replicate.mp hc).2]
  rfl

theorem isSpace_open (style : Style) (depth : Nat) : ∀ c ∈ style.open depth, isSpace c = true := by
  unfold Style.open
  split
  · exact isSpace_newline
  · nofun

theorem isSpace_close (style : Style) (depth : Nat) : ∀ c ∈ style.close depth, isSpace c = true := by
  unfold Style.close
  split
  · exact isSpace_newline
  · nofun

theorem between_eq (style : Style) (depth : Nat) :
    ∃ blanks, style.between depth = ',' :: blanks ∧ ∀ c ∈ blanks, isSpace c = true := by
  unfold Style.between
  split
  · exact ⟨_, rfl, isSpace_newline⟩
  · exact ⟨[' '], rfl, List.all_eq_true.mp rfl⟩

theorem numberEnds_cons {c : Char} (hc : c.isDigit = false ∧ c ≠ '.' ∧ c ≠ 'e' ∧ c ≠ 'E')
    (cs : List Char) : NumberEnds (c :: cs) := by
  intro d hd
  cases hd
  exact hc

theorem NumberEnds.append {cs ds : List Char} (hc : NumberEnds cs) (hd : NumberEnds ds) :
    NumberEnds (cs ++ ds) := by
  cases cs with
  | nil => exact hd
  | cons c cs => exact numberEnds_cons (hc c rfl) _

theorem numberEnds_close (style : Style) (depth : Nat) : NumberEnds (style.close depth) := by
  unfold Style.close
  split
  · exact numberEnds_cons (by decide) _
  · nofun

theorem numberEnds_items (style : Style) (depth : Nat) (vs : List Value) :
    NumberEnds (writeItems style depth vs) := by
  cases vs with
  | nil =>
    rw [writeItems]
    nofun
  | cons v vs =>
    obtain ⟨blanks, hblanks, _⟩ := between_eq style depth
    rw [writeItems, hblanks]
    exact numberEnds_cons (by decide) _

theorem numberEnds_members (style : Style) (depth : Nat) (es : List (Value × Value)) :
    NumberEnds (writeMembers style depth es) := by
  cases es with
  | nil =>
    rw [writeMembers]
    nofun
  | cons e es =>
    obtain ⟨blanks, hblanks, _⟩ := between_eq style depth
    rw [writeMembers, hblanks]
    exact numberEnds_cons (by decide) _

theorem numberEnds_list (style : Style) (depth : Nat) (vs : List Value) (rest : List Char) :
    NumberEnds (writeItems style depth vs ++ (style.close depth ++ ']' :: rest)) :=
  (numberEnds_items style depth vs).append
    ((numberEnds_close style depth).append (numberEnds_cons (by decide) rest))

theorem numberEnds_map (style : Style) (depth : Nat) (es : List (Value × Value)) (rest : List Char) :
    NumberEnds (writeMembers style depth es ++ (style.close depth ++ '\x7d' :: rest)) :=
  (numberEnds_members style depth es).append
    ((numberEnds_close style depth).append (numberEnds_cons (by decide) rest))

/-- A text that is read as one value whatever follows it. -/
def ReadsAs (cs : List Char) (v : Value) : Prop :=
  (∃ c more, cs = c :: more ∧ isSpace c = false ∧ c ≠ ']' ∧ c ≠ '\uFEFF') ∧
    ∀ fuel rest, NumberEnds rest → 2 * cs.length ≤ fuel →
      readValue fuel (cs ++ rest) = .ok (v, rest)

theorem ReadsAs.skipSpace {blanks cs : List Char} {v : Value} (h : ReadsAs cs v)
    (hb : ∀ c ∈ blanks, isSpace c = true) (rest : List Char) :
    skipSpace (blanks ++ (cs ++ rest)) = cs ++ rest := by
  obtain ⟨⟨c, more, rfl, hspace, _⟩, _⟩ := h
  exact skipSpace_append hb hspace _

theorem Quoted.skipSpace {blanks key : List Char} {k : Value} (h : Quoted key k)
    (hb : ∀ c ∈ blanks, isSpace c = true) (rest : List Char) :
    skipSpace (blanks ++ (key ++ rest)) = key ++ rest := by
  obtain ⟨body, rfl, _⟩ := h
  exact skipSpace_append hb rfl _

theorem ReadsAs.of_quoted {cs : List Char} {v : Value} (h : Quoted cs v) : ReadsAs cs v := by
  obtain ⟨body, rfl, hbody⟩ := h
  refine ⟨⟨'"', _, rfl, rfl, by decide, by decide⟩, fun fuel rest _ hfuel => ?_⟩
  simp only [List.length_append, List.length_cons] at hfuel
  obtain ⟨fuel, rfl⟩ : ∃ k, fuel = k + 1 := ⟨fuel - 1, by omega⟩
  have hread := hbody fuel rest (by omega)
  simpa [readValue] using hread

theorem isSpace_of_bare {c : Char} (hc : IsBare c) : isSpace c = false := by
  simp [isSpace, hc.ne (by decide : ¬ IsBare ' '), hc.ne (by decide : ¬ IsBare '\t'),
    hc.ne (by decide : ¬ IsBare '\n'), hc.ne (by decide : ¬ IsBare '\r')]

/-- A value that begins with no quote or bracket is a word or a number. -/
theorem readValue_bare {c : Char} (hc : IsBare c) (fuel : Nat) (cs : List Char) :
    readValue (fuel + 1) (c :: cs) = readScalar (c :: cs) := by
  have hquote : c ≠ '"' := hc.ne (by decide)
  have hlist : c ≠ '[' := hc.ne (by decide)
  have hmap : c ≠ '\x7b' := hc.ne (by decide)
  rw [readValue.eq_def]
  simp [hquote, hlist, hmap]

theorem ReadsAs.of_scalar {cs : List Char} {v : Value} (hcs : ∃ c more, cs = c :: more ∧ IsBare c)
    (h : ∀ rest, NumberEnds rest → readScalar (cs ++ rest) = .ok (v, rest)) : ReadsAs cs v := by
  obtain ⟨c, more, rfl, hc⟩ := hcs
  refine ⟨⟨c, more, rfl, isSpace_of_bare hc, hc.ne (by decide), hc.ne (by decide)⟩, ?_⟩
  intro fuel rest hr hfuel
  simp only [List.length_cons] at hfuel
  obtain ⟨fuel, rfl⟩ : ∃ k, fuel = k + 1 := ⟨fuel - 1, by omega⟩
  rw [← h rest hr, List.cons_append, readValue_bare hc]

/-- A leaf is read back whole, and as it is when it is plain. -/
theorem exists_leaf {v : Value} (hfault : leafFault? v = none) :
    ∃ v', (isPlain v = true → v' = v) ∧ ∀ style depth, style.escapeAll = true →
      ReadsAs (writeValue style depth v) v' := by
  have hleaf (style : Style) (depth : Nat) : writeValue style depth v = writeScalar style v := by
    cases v with
    | list vs => contradiction
    | map es => contradiction
    | _ => rfl
  simp only [hleaf]
  by_cases htext : ∃ s, v = .text s
  · obtain ⟨s, rfl⟩ := htext
    exact ⟨.text s, fun _ => rfl, fun style _ _ => .of_quoted (quoted_text style s)⟩
  · have hno (s : String) : v ≠ .text s := fun h => htext ⟨s, h⟩
    by_cases hpoints : ∃ ps, v = .points ps
    · obtain ⟨ps, rfl⟩ := hpoints
      obtain ⟨v', hv'⟩ := exists_quoted (escaped_points escapeAll_line ps)
      refine ⟨v', nofun, fun style _ hs => ?_⟩
      rw [writeScalar_line hs]
      exact .of_quoted hv'
    · have hnone (ps : List Nat) : v ≠ .points ps := fun h => hpoints ⟨ps, h⟩
      obtain ⟨v', hsame, hread⟩ := exists_readScalar hfault hno hnone
      refine ⟨v', ?_, fun style _ _ => ?_⟩
      · intro hplain
        apply hsame
        rintro x rfl
        contradiction
      · exact .of_scalar (writeScalar_bare hfault hno hnone style).head (hread style)

/-- What the reader of a list does after an item. -/
def afterItem (fuel : Nat) (cs : List Char) (held : List Value) : Reading Value :=
  match skipSpace cs with
  | ']' :: after => .ok (.list held.reverse, after)
  | ',' :: after => readItems fuel (skipSpace after) held
  | other => .error (.syntaxError .comma other)

theorem readItems_item {fuel : Nat} {cs rest : List Char} {v : Value}
    (h : readValue fuel cs = .ok (v, rest)) (held : List Value) :
    readItems (fuel + 1) cs held = afterItem fuel rest (v :: held) := by
  rw [readItems, h]
  rfl

theorem afterItem_next {fuel : Nat} {blanks cs rest : List Char} {v : Value} {held : List Value}
    (hb : ∀ c ∈ blanks, isSpace c = true) (h : ReadsAs cs v) (hr : NumberEnds rest)
    (hfuel : 2 * cs.length ≤ fuel) :
    afterItem (fuel + 1) (',' :: (blanks ++ (cs ++ rest))) held =
      afterItem fuel rest (v :: held) := by
  rw [afterItem, skipSpace_cons rfl]
  simp only [h.skipSpace hb]
  exact readItems_item (h.2 fuel rest hr hfuel) held

/-- What the reader of a map does after a member. -/
def afterMember (fuel : Nat) (cs : List Char) (held : List (Value × Value)) : Reading Value :=
  match skipSpace cs with
  | '\x7d' :: after => .ok (.map held, after)
  | ',' :: after => readMembers fuel (skipSpace after) held
  | other => .error (.syntaxError .comma other)

theorem readMembers_member {fuel : Nat} {key cs rest : List Char} {k v : Value}
    (hk : Quoted key k) (hv : ReadsAs cs v) (hr : NumberEnds rest)
    (hfuel : key.length + 2 * cs.length ≤ fuel) (held : List (Value × Value)) :
    readMembers (fuel + 1) (key ++ ':' :: ' ' :: (cs ++ rest)) held =
      afterMember fuel rest (Value.put k v held) := by
  obtain ⟨body, rfl, hbody⟩ := hk
  simp only [List.length_append, List.length_cons] at hfuel
  have hblank : ∀ c ∈ [' '], isSpace c = true := List.all_eq_true.mp rfl
  have hskip : skipSpace (' ' :: (cs ++ rest)) = cs ++ rest := hv.skipSpace hblank rest
  have hcolon : skipSpace (':' :: ' ' :: (cs ++ rest)) = ':' :: ' ' :: (cs ++ rest) :=
    skipSpace_cons rfl _
  have hstring := hbody fuel (':' :: ' ' :: (cs ++ rest)) (by omega)
  have hvalue := hv.2 fuel rest hr (by omega)
  rw [List.append_assoc, List.cons_append, List.singleton_append, readMembers, hstring]
  simp only [hcolon, hskip, hvalue]
  rfl

theorem afterMember_next {fuel : Nat} {blanks key cs rest : List Char} {k v : Value}
    {held : List (Value × Value)} (hb : ∀ c ∈ blanks, isSpace c = true) (hk : Quoted key k)
    (hv : ReadsAs cs v) (hr : NumberEnds rest) (hfuel : key.length + 2 * cs.length ≤ fuel) :
    afterMember (fuel + 1) (',' :: (blanks ++ (key ++ ':' :: ' ' :: (cs ++ rest)))) held =
      afterMember fuel rest (Value.put k v held) := by
  rw [afterMember, skipSpace_cons rfl]
  simp only [hk.skipSpace hb]
  exact readMembers_member hk hv hr hfuel held

/-- What a value is read back as, however it is laid out: a plain one as itself. -/
structure Faithful (v v' : Value) : Prop where
  plain : isPlain v = true → v' = v
  reads : ∀ style depth, style.escapeAll = true → ReadsAs (writeValue style depth v) v'

structure FaithfulMember (e e' : Value × Value) : Prop where
  text : ∀ s, e.1 = .text s → e'.1 = e.1
  key : ∀ style : Style, style.escapeAll = true → Quoted (writeKey style e.1) e'.1
  value : Faithful e.2 e'.2

/-- The members of an object, put one after the other. -/
def putAll (held es : List (Value × Value)) : List (Value × Value) :=
  es.foldl (fun held e => Value.put e.1 e.2 held) held

variable {style : Style}

theorem afterItem_items (hs : style.escapeAll = true) (depth : Nat) {vs vs' : List Value}
    (h : List.Forall₂ Faithful vs vs') (rest : List Char) {fuel : Nat}
    (hfuel : 2 * (writeItems style depth vs).length ≤ fuel) (held : List Value) :
    afterItem fuel (writeItems style depth vs ++ (style.close depth ++ ']' :: rest)) held =
      .ok (.list (held.reverse ++ vs'), rest) := by
  induction h generalizing fuel held with
  | nil =>
    rw [writeItems, List.nil_append, afterItem, skipSpace_append (isSpace_close style depth) rfl]
    simp
  | @cons v v' vs vs' hv hvs ih =>
    obtain ⟨blanks, hbetween, hblanks⟩ := between_eq style depth
    have htail := numberEnds_list style depth vs rest
    rw [writeItems, hbetween] at hfuel ⊢
    simp only [List.length_append, List.length_cons, List.cons_append, List.append_assoc] at hfuel ⊢
    obtain ⟨fuel, rfl⟩ : ∃ k, fuel = k + 1 := ⟨fuel - 1, by omega⟩
    rw [afterItem_next hblanks (hv.reads style (depth + 1) hs) htail (by omega),
      ih (by omega)]
    simp

theorem afterMember_members (hs : style.escapeAll = true) (depth : Nat)
    {es es' : List (Value × Value)} (h : List.Forall₂ FaithfulMember es es') (rest : List Char) {fuel : Nat}
    (hfuel : 2 * (writeMembers style depth es).length ≤ fuel) (held : List (Value × Value)) :
    afterMember fuel (writeMembers style depth es ++ (style.close depth ++ '\x7d' :: rest)) held =
      .ok (.map (putAll held es'), rest) := by
  induction h generalizing fuel held with
  | nil =>
    rw [writeMembers, List.nil_append, afterMember, skipSpace_append (isSpace_close style depth) rfl]
    rfl
  | @cons e e' es es' he hes ih =>
    obtain ⟨k, v⟩ := e
    obtain ⟨k', v'⟩ := e'
    obtain ⟨blanks, hbetween, hblanks⟩ := between_eq style depth
    have htail := numberEnds_map style depth es rest
    rw [writeMembers, hbetween] at hfuel ⊢
    simp only [List.length_append, List.length_cons, List.cons_append, List.append_assoc] at hfuel ⊢
    obtain ⟨fuel, rfl⟩ : ∃ k, fuel = k + 1 := ⟨fuel - 1, by omega⟩
    have hkey : Quoted (writeKey style k) k' := he.key style hs
    have hvalue : ReadsAs (writeValue style (depth + 1) v) v' := he.value.reads style (depth + 1) hs
    rw [afterMember_next hblanks hkey hvalue htail (by omega), ih (by omega)]
    rfl

theorem readValue_first {fuel : Nat} {blanks cs rest : List Char} {v : Value}
    (hb : ∀ c ∈ blanks, isSpace c = true) (h : ReadsAs cs v) (hr : NumberEnds rest)
    (hfuel : 2 * cs.length ≤ fuel) :
    readValue (fuel + 2) ('[' :: (blanks ++ (cs ++ rest))) = afterItem fuel rest [v] := by
  obtain ⟨⟨c, more, hcs, hspace, hclose, _⟩, hread⟩ := h
  have hskip : skipSpace (blanks ++ (cs ++ rest)) = c :: (more ++ rest) := by
    rw [hcs]
    exact skipSpace_append hb hspace _
  rw [readValue]
  simp only [hskip]
  rw [← readItems_item (hread fuel rest hr hfuel) [], hcs]
  split
  · next heq => exact absurd (List.cons.inj heq).1 hclose
  · rfl

theorem readValue_member {fuel : Nat} {blanks key cs rest : List Char} {k v : Value}
    (hb : ∀ c ∈ blanks, isSpace c = true) (hk : Quoted key k) (hv : ReadsAs cs v)
    (hr : NumberEnds rest) (hfuel : key.length + 2 * cs.length ≤ fuel) :
    readValue (fuel + 2) ('\x7b' :: (blanks ++ (key ++ ':' :: ' ' :: (cs ++ rest)))) =
      afterMember fuel rest [(k, v)] := by
  have hskip := hk.skipSpace hb (':' :: ' ' :: (cs ++ rest))
  have hmember := readMembers_member hk hv hr hfuel []
  obtain ⟨body, rfl, _⟩ := hk
  rw [readValue]
  simp only [hskip]
  exact hmember

theorem reads_list (hs : style.escapeAll = true) (depth : Nat) {vs vs' : List Value}
    (h : List.Forall₂ Faithful vs vs') : ReadsAs (writeValue style depth (.list vs)) (.list vs') := by
  cases h with
  | nil =>
    refine ⟨⟨'[', [']'], by rw [writeValue], rfl, by decide, by decide⟩, ?_⟩
    intro fuel rest _ hfuel
    rw [writeValue] at hfuel ⊢
    obtain ⟨fuel, rfl⟩ : ∃ k, fuel = k + 1 := ⟨fuel - 1, by simp at hfuel; omega⟩
    simp [readValue, skipSpace_cons (show isSpace ']' = false from rfl)]
  | @cons v v' vs vs' hv hvs =>
    refine ⟨⟨'[', _, by rw [writeValue]; rfl, rfl, by decide, by decide⟩, ?_⟩
    intro fuel rest _ hfuel
    have htail := numberEnds_list style depth vs rest
    rw [writeValue] at hfuel ⊢
    simp only [List.length_append, List.length_cons, List.cons_append, List.append_assoc,
      List.nil_append] at hfuel ⊢
    obtain ⟨fuel, rfl⟩ : ∃ k, fuel = k + 2 := ⟨fuel - 2, by omega⟩
    rw [readValue_first (isSpace_open style depth) (hv.reads style (depth + 1) hs) htail (by omega),
      afterItem_items hs depth hvs rest (by omega)]
    rfl

theorem reads_map (hs : style.escapeAll = true) (depth : Nat) {es es' : List (Value × Value)}
    (h : List.Forall₂ FaithfulMember es es') :
    ReadsAs (writeValue style depth (.map es)) (.map (putAll [] es')) := by
  cases h with
  | nil =>
    refine ⟨⟨'\x7b', ['\x7d'], by rw [writeValue], rfl, by decide, by decide⟩, ?_⟩
    intro fuel rest _ hfuel
    rw [writeValue] at hfuel ⊢
    obtain ⟨fuel, rfl⟩ : ∃ k, fuel = k + 1 := ⟨fuel - 1, by simp at hfuel; omega⟩
    simp [readValue, skipSpace_cons (show isSpace '\x7d' = false from rfl), putAll]
  | @cons e e' es es' he hes =>
    obtain ⟨k, v⟩ := e
    obtain ⟨k', v'⟩ := e'
    refine ⟨⟨'\x7b', _, by rw [writeValue]; rfl, rfl, by decide, by decide⟩, ?_⟩
    intro fuel rest _ hfuel
    have hkey : Quoted (writeKey style k) k' := he.key style hs
    have hvalue : ReadsAs (writeValue style (depth + 1) v) v' := he.value.reads style (depth + 1) hs
    have htail := numberEnds_map style depth es rest
    rw [writeValue] at hfuel ⊢
    simp only [List.length_append, List.length_cons, List.cons_append, List.append_assoc,
      List.nil_append] at hfuel ⊢
    obtain ⟨fuel, rfl⟩ : ∃ k, fuel = k + 2 := ⟨fuel - 2, by omega⟩
    rw [readValue_member (isSpace_open style depth) hkey hvalue htail (by omega),
      afterMember_members hs depth hes rest (by omega)]
    rfl

theorem forall₂_plain {vs vs' : List Value} (h : List.Forall₂ Faithful vs vs')
    (hplain : arePlain vs = true) : vs' = vs := by
  induction h with
  | nil => rfl
  | cons hv _ ih =>
    simp only [arePlain, Bool.and_eq_true] at hplain
    rw [hv.plain hplain.1, ih hplain.2]

theorem forall₂_membersPlain {es es' : List (Value × Value)} (h : List.Forall₂ FaithfulMember es es')
    {seen : List String} (hplain : membersPlain seen es = true) : es' = es := by
  induction h generalizing seen with
  | nil => rfl
  | @cons e e' es es' he _ ih =>
    obtain ⟨k, v⟩ := e
    cases k with
    | text s =>
      simp only [membersPlain, Bool.and_eq_true] at hplain
      have hkey : e'.1 = .text s := he.text s rfl
      have hvalue : e'.2 = v := he.value.plain hplain.1.2
      rw [ih hplain.2, ← hkey, ← hvalue]
    | _ => contradiction

theorem put_new {key v : Value} {held : List (Value × Value)}
    (h : ∀ e ∈ held, e.1.sameKey key = false) : Value.put key v held = held ++ [(key, v)] := by
  induction held with
  | nil => rfl
  | cons e held ih =>
    obtain ⟨he, hheld⟩ := List.forall_mem_cons.mp h
    rw [Value.put, he, ih hheld]
    rfl

theorem putAll_append {held es : List (Value × Value)}
    (h : (held ++ es).Pairwise fun a b => a.1.sameKey b.1 = false) :
    putAll held es = held ++ es := by
  induction es generalizing held with
  | nil => simp [putAll]
  | cons e es ih =>
    have hnew : ∀ e' ∈ held, e'.1.sameKey e.1 = false :=
      fun e' he' => (List.pairwise_append.mp h).2.2 e' he' e List.mem_cons_self
    change putAll (Value.put e.1 e.2 held) es = _
    rw [put_new hnew, ih (by simpa using h), List.append_assoc]
    rfl

/-- Members with keys of their own are kept in their order. -/
theorem putAll_of_apart {es : List (Value × Value)}
    (h : es.Pairwise fun a b => a.1.sameKey b.1 = false) : putAll [] es = es :=
  putAll_append (by simpa using h)

/-- The members of a plain object have keys of their own. -/
theorem apart_of_plain {seen : List String} {es : List (Value × Value)}
    (h : membersPlain seen es = true) : (∀ e ∈ es, ∃ s, s ∉ seen ∧ e.1 = .text s) ∧
      es.Pairwise fun a b => a.1.sameKey b.1 = false := by
  induction es generalizing seen with
  | nil => exact ⟨nofun, .nil⟩
  | cons e es ih =>
    obtain ⟨k, v⟩ := e
    cases k with
    | text s =>
      simp only [membersPlain, Bool.and_eq_true, Bool.not_eq_true', List.contains_eq_mem,
        decide_eq_false_iff_not] at h
      obtain ⟨hnew, hapart⟩ := ih h.2
      refine ⟨List.forall_mem_cons.mpr ⟨⟨s, h.1.1, rfl⟩, ?_⟩,
        List.pairwise_cons.mpr ⟨?_, hapart⟩⟩
      · intro e he
        obtain ⟨r, hr, hkey⟩ := hnew e he
        exact ⟨r, fun hmem => hr (List.mem_cons_of_mem s hmem), hkey⟩
      · intro e he
        obtain ⟨r, hr, hkey⟩ := hnew e he
        have hne : s ≠ r := fun heq => hr (heq ▸ List.mem_cons_self)
        simp [hkey, Value.sameKey, hne]
    | _ => contradiction

theorem faithful_list {vs vs' : List Value} (h : List.Forall₂ Faithful vs vs') :
    Faithful (.list vs) (.list vs') where
  plain hplain := by rw [forall₂_plain h hplain]
  reads _ depth hs := reads_list hs depth h

theorem faithful_map {es es' : List (Value × Value)} (h : List.Forall₂ FaithfulMember es es') :
    Faithful (.map es) (.map (putAll [] es')) where
  plain hplain := by
    rw [forall₂_membersPlain h hplain, putAll_of_apart (apart_of_plain hplain).2]
  reads _ depth hs := reads_map hs depth h

mutual

/-- Whatever can be written is read back whole. -/
theorem exists_faithful (v : Value) (h : fault? v = none) : ∃ v', Faithful v v' := by
  match v with
  | .list vs =>
    rw [fault?] at h
    obtain ⟨vs', hvs⟩ := exists_faithful_items vs h
    exact ⟨.list vs', faithful_list hvs⟩
  | .map es =>
    rw [fault?] at h
    obtain ⟨es', hes⟩ := exists_faithful_members es h
    exact ⟨.map (putAll [] es'), faithful_map hes⟩
  | .null | .bool _ | .int _ | .double _ | .text _ | .points _ | .bytes _ | .date _ _ _ | .moment _
  | .id _ | .set _ | .again _ =>
    rw [fault?] at h
    · obtain ⟨v', hplain, hreads⟩ := exists_leaf h
      exact ⟨v', hplain, hreads⟩
    · nofun
    · nofun

theorem exists_faithful_items (vs : List Value) (h : itemsFault? vs = none) :
    ∃ vs', List.Forall₂ Faithful vs vs' := by
  match vs with
  | [] => exact ⟨[], .nil⟩
  | v :: vs =>
    simp only [itemsFault?, Option.or_eq_none_iff] at h
    obtain ⟨v', hv⟩ := exists_faithful v h.1
    obtain ⟨vs', hvs⟩ := exists_faithful_items vs h.2
    exact ⟨v' :: vs', .cons hv hvs⟩

theorem exists_faithful_members (es : List (Value × Value)) (h : membersFault? es = none) :
    ∃ es', List.Forall₂ FaithfulMember es es' := by
  match es with
  | [] => exact ⟨[], .nil⟩
  | (k, v) :: es =>
    simp only [membersFault?, Option.or_eq_none_iff] at h
    obtain ⟨k', htext, hkey⟩ := exists_key h.1
    obtain ⟨v', hv⟩ := exists_faithful v h.2.1
    obtain ⟨es', hes⟩ := exists_faithful_members es h.2.2
    exact ⟨(k', v') :: es', .cons ⟨htext, hkey, hv⟩ hes⟩

end

theorem arePlain_eq_true {vs : List Value} : arePlain vs = true ↔ ∀ v ∈ vs, isPlain v = true := by
  induction vs with
  | nil => exact iff_of_true rfl nofun
  | cons v vs ih => rw [arePlain, Bool.and_eq_true, ih, List.forall_mem_cons]

theorem itemsFault?_eq_none {vs : List Value} : itemsFault? vs = none ↔
    ∀ v ∈ vs, fault? v = none := by
  induction vs with
  | nil => exact iff_of_true rfl nofun
  | cons v vs ih => rw [itemsFault?, Option.or_eq_none_iff, ih, List.forall_mem_cons]

theorem membersFault?_eq_none {es : List (Value × Value)} : membersFault? es = none ↔
    ∀ e ∈ es, leafFault? e.1 = none ∧ fault? e.2 = none := by
  induction es with
  | nil => exact iff_of_true rfl nofun
  | cons e es ih => rw [membersFault?, Option.or_eq_none_iff, Option.or_eq_none_iff, ih,
      List.forall_mem_cons, and_assoc]

theorem numberEnds_blanks {blanks : List Char} (hb : ∀ c ∈ blanks, isSpace c = true) :
    NumberEnds blanks := by
  cases blanks with
  | nil => nofun
  | cons c cs =>
    have hc := hb c List.mem_cons_self
    simp only [isSpace, Bool.or_eq_true, beq_iff_eq] at hc
    rcases hc with ((rfl | rfl) | rfl) | rfl <;> exact numberEnds_cons (by decide) cs

/-- A document is read back whole, with blanks after it or without. -/
theorem parse_render {v v' : Value} (h : Faithful v v') (hs : style.escapeAll = true)
    {blanks : String} (hb : ∀ c ∈ blanks.toList, isSpace c = true) :
    parse (render style v ++ blanks) = .ok v' := by
  obtain ⟨⟨c, more, hcs, hspace, _, hmark⟩, hread⟩ := h.reads style 0 hs
  have htext : (render style v ++ blanks).toList = c :: (more ++ blanks.toList) := by
    simp [render, hcs]
  have hvalue := hread (2 * (c :: (more ++ blanks.toList)).length + 2) blanks.toList
    (numberEnds_blanks hb) (by simp [hcs]; omega)
  rw [hcs, List.cons_append] at hvalue
  have hrest : skipSpace blanks.toList = [] := List.dropWhile_eq_nil_iff.mpr hb
  rw [parse, htext, readDocument.eq_def]
  split
  · next heq => exact absurd (List.cons.inj heq).1 hmark
  · rw [skipSpace_cons hspace, hvalue]
    simp only [hrest]

/-- A plain document is read back as it was written. -/
theorem parse_render_plain {v : Value} (hfault : fault? v = none) (hplain : isPlain v = true)
    (hs : style.escapeAll = true) : parse (render style v) = .ok v := by
  obtain ⟨v', hv⟩ := exists_faithful v hfault
  have hblank : ∀ c ∈ "".toList, isSpace c = true := nofun
  have hparse := parse_render hv hs hblank
  rwa [String.append_empty, hv.plain hplain] at hparse

end ProductLock.Json
