import ProductLock.Lockfile.Reader
import ProductLock.Proofs.Dependency.Fields
import ProductLock.Proofs.Version.Characters

namespace ProductLock.Lockfile

/-- A text that is not empty and is all of one class of characters. -/
structure Run (p : Char → Bool) (s : String) : Prop where
  ne_nil : s.toList ≠ []
  chars : ∀ c ∈ s.toList, p c = true

/-- A run is taken whole: what is left does not begin with a character of its class. -/
theorem takeRun_ok {p : Char → Bool} {cs rest : List Char} {s : String} :
    takeRun p cs = some (s, rest) ↔
      Run p s ∧ (∀ c, rest.head? = some c → p c = false) ∧ cs = s.toList ++ rest := by
  simp only [takeRun]
  constructor
  · intro h
    split at h
    · contradiction
    · next hne =>
      obtain ⟨rfl, rfl⟩ := Prod.mk.inj (Option.some.inj h)
      rw [String.toList_ofList]
      refine ⟨⟨?_, ?_⟩, ?_, List.takeWhile_append_dropWhile.symm⟩
      · rwa [String.toList_ofList]
      · rw [String.toList_ofList]
        exact List.all_eq_true.mp List.all_takeWhile
      · intro c hc
        have := List.head?_dropWhile_not p cs
        rw [hc] at this
        simpa using this
  · rintro ⟨⟨hne, hs⟩, hrest, rfl⟩
    have hstop : rest.takeWhile p = [] ∧ rest.dropWhile p = rest := by
      cases rest with
      | nil => exact ⟨rfl, rfl⟩
      | cons c cs => simp [hrest c rfl]
    have htake : (s.toList ++ rest).takeWhile p = s.toList := by
      rw [List.takeWhile_append_of_pos hs, hstop.1, List.append_nil]
    have hdrop : (s.toList ++ rest).dropWhile p = rest := by
      rw [List.dropWhile_append_of_pos hs, hstop.2]
    simp only [htake, hdrop, if_neg hne, String.ofList_toList]

/-- A mark of another class ends a run. -/
theorem stops {p : Char → Bool} {c : Char} {rest : List Char} (h : p c = false) :
    ∀ d, (c :: rest).head? = some d → p d = false := by
  rintro d ⟨⟩
  exact h

theorem takeMark_ok {mark : String} {cs rest : List Char} :
    takeMark mark cs = some rest ↔ cs = mark.toList ++ rest := by
  unfold takeMark
  constructor
  · intro h
    split at h
    · next hprefix =>
      obtain ⟨tail, rfl⟩ := List.isPrefixOf_iff_prefix.mp hprefix
      rw [List.drop_left] at h
      rw [Option.some.inj h]
    · contradiction
  · rintro rfl
    rw [if_pos (List.isPrefixOf_iff_prefix.mpr (List.prefix_append _ _)), List.drop_left]

/-- What stands in a line between the maximum and the closing parenthesis. -/
def recordTail : Option String → List Char
  | none => []
  | some v => ',' :: ' ' :: v.toList

def optionalMark (o : Bool) : String :=
  if o then " optional" else ""

/-- The line that has these parts between its marks. -/
def recordLine (f : Dependency.Fields) : String :=
  f.group ++ ":" ++ f.name ++ " (" ++ f.minimum ++ ", " ++ f.maximum ++
    String.ofList (recordTail f.recommended) ++ ")" ++ optionalMark f.optional

theorem recordLine_toList (f : Dependency.Fields) : (recordLine f).toList =
    f.group.toList ++ ':' :: (f.name.toList ++ ' ' :: '(' :: (f.minimum.toList ++
      ',' :: ' ' :: (f.maximum.toList ++ (recordTail f.recommended ++
        ')' :: (optionalMark f.optional).toList)))) := by
  simp [recordLine]

theorem stops_recordTail {r : Option String} {rest : List Char} :
    ∀ c, (recordTail r ++ ')' :: rest).head? = some c → isVersionChar c = false := by
  cases r with
  | none => exact stops rfl
  | some v => exact stops rfl

theorem readTail_ok {cs rest : List Char} {r : Option String} :
    readTail cs = some (r, rest) ↔
      (∀ v, r = some v → Run isVersionChar v) ∧ cs = recordTail r ++ ')' :: rest := by
  have hcomma : takeMark ", " (')' :: rest) = none := rfl
  unfold readTail
  constructor
  · intro h
    split at h
    · obtain ⟨rest', hclose, he⟩ := Option.map_eq_some_iff.mp h
      obtain ⟨rfl, rfl⟩ := Prod.mk.inj he
      exact ⟨nofun, takeMark_ok.mp hclose⟩
    · next tail hmark =>
      simp only [Option.bind_eq_bind, Option.bind_eq_some_iff, Prod.exists, takeRun_ok,
        takeMark_ok, Option.pure_def, Option.some.injEq, Prod.mk.injEq] at h
      obtain ⟨v, _, ⟨hv, _, rfl⟩, _, rfl, rfl, rfl⟩ := h
      refine ⟨fun w hw => Option.some.inj hw ▸ hv, ?_⟩
      rw [takeMark_ok.mp hmark]
      rfl
  · rintro ⟨hr, rfl⟩
    cases r with
    | none => rw [recordTail, List.nil_append, hcomma]; rfl
    | some v =>
      have hmark : takeMark ", " (recordTail (some v) ++ ')' :: rest) =
          some (v.toList ++ ')' :: rest) := takeMark_ok.mpr rfl
      have hrun : takeRun isVersionChar (v.toList ++ ')' :: rest) = some (v, ')' :: rest) :=
        takeRun_ok.mpr ⟨hr v rfl, stops rfl, rfl⟩
      have hclose : takeMark ")" (')' :: rest) = some rest := takeMark_ok.mpr rfl
      simp [hmark, hrun, hclose]

theorem readOptional_ok {cs : List Char} {o : Bool} :
    readOptional cs = some o ↔ cs = (optionalMark o).toList := by
  have hmark : " optional".toList ≠ [] := by decide
  unfold readOptional
  split
  · next hnil =>
    subst hnil
    cases o <;> simp [optionalMark]
  · split <;> cases o <;> simp_all [optionalMark]

/-- Parts that the marks of a line keep apart. -/
structure Shaped (f : Dependency.Fields) : Prop where
  group : Run isNameChar f.group
  name : Run isNameChar f.name
  minimum : Run isVersionChar f.minimum
  maximum : Run isVersionChar f.maximum
  recommended : ∀ v, f.recommended = some v → Run isVersionChar v

/-- The parts that are read from a line are those that it has between its marks, and no others. -/
theorem readLine_ok {line : String} {f : Dependency.Fields} :
    readLine line = some f ↔ Shaped f ∧ line = recordLine f := by
  rw [← String.toList_inj, recordLine_toList]
  simp only [readLine, Option.bind_eq_bind, Option.bind_eq_some_iff, Prod.exists, takeRun_ok,
    takeMark_ok, readTail_ok, readOptional_ok, Option.pure_def, Option.some.injEq]
  constructor
  · rintro ⟨group, _, ⟨hgroup, _, hline⟩, _, rfl, name, _, ⟨hname, _, rfl⟩, _, rfl, minimum, _,
      ⟨hminimum, _, rfl⟩, _, rfl, maximum, _, ⟨hmaximum, _, rfl⟩, recommended, _,
      ⟨hrecommended, rfl⟩, optional, rfl, rfl⟩
    exact ⟨⟨hgroup, hname, hminimum, hmaximum, hrecommended⟩, hline⟩
  · rintro ⟨hshaped, hline⟩
    exact ⟨f.group, _, ⟨hshaped.group, stops rfl, hline⟩, _, rfl, f.name, _,
      ⟨hshaped.name, stops rfl, rfl⟩, _, rfl, f.minimum, _, ⟨hshaped.minimum, stops rfl, rfl⟩, _,
      rfl, f.maximum, _, ⟨hshaped.maximum, stops_recordTail, rfl⟩, f.recommended, _,
      ⟨hshaped.recommended, rfl⟩, f.optional, rfl, rfl⟩

theorem bounds_of_isLower {c : Char} (h : c.isLower = true) : 97 ≤ c.toNat ∧ c.toNat ≤ 122 := by
  obtain ⟨hlow, hhigh⟩ := Bool.and_eq_true_iff.mp h
  exact ⟨of_decide_eq_true hlow, of_decide_eq_true hhigh⟩

theorem isVersionChar_of_isPlain {c : Char} (h : Version.isPlain c = true) :
    isVersionChar c = true := by
  have hrange : 45 ≤ c.toNat ∧ c.toNat ≤ 122 := by
    simp only [Version.isPlain, Version.isTagChar, Bool.or_eq_true, beq_iff_eq] at h
    rcases h with ((h | h) | rfl) | rfl
    · obtain ⟨hlow, hhigh⟩ := Numeral.bounds_of_isDigit h
      omega
    · obtain ⟨hlow, hhigh⟩ := bounds_of_isLower h
      omega
    · decide
    · decide
  have hblank : Text.isBlank c = false := by
    simp only [Text.isBlank, Bool.or_eq_false_iff, Bool.and_eq_false_iff, decide_eq_false_iff_not,
      beq_eq_false_iff_ne]
    omega
  have hmark : c ≠ ',' ∧ c ≠ '(' ∧ c ≠ ')' := by
    refine ⟨?_, ?_, ?_⟩ <;>
    · intro h
      simp [h] at hrange
  simp [isVersionChar, hblank, hmark]

theorem run_of_isValidOrMatcher {s : String} (h : Version.isValidOrMatcher s = true) :
    Run isVersionChar s where
  ne_nil := Version.ne_nil_of_isValidOrMatcher h
  chars c hc := isVersionChar_of_isPlain (Version.plain_of_isValidOrMatcher h c hc)

theorem run_of_isValid {s : String} (h : Version.isValid s = true) : Run isVersionChar s :=
  run_of_isValidOrMatcher (Bool.or_eq_true_iff.mpr (.inl h))

theorem run_placeholder : Run isVersionChar placeholder where
  ne_nil := by decide
  chars := List.all_eq_true.mp rfl

theorem isNameChar_of_isIdChar {c : Char} (h : isIdChar c = true) : isNameChar c = true := by
  simp only [isIdChar, Bool.and_eq_true] at h
  simp only [isNameChar, Bool.and_eq_true]
  exact h.1.1.1

theorem run_of_isIdPart {s : String} (h : isIdPart s = true) : Run isNameChar s where
  ne_nil := (IdPart.chars h).1
  chars c hc := isNameChar_of_isIdChar ((IdPart.chars h).2 c hc)

/-- The parts of a dependency that are written between the marks of its line. -/
def Workspace.writeFields (w : Workspace) (d : Dependency) : Dependency.Fields :=
  { d.fields with
    minimum := w.write d.product d.minimum
    recommended := d.recommended.map (w.write d.product) }

theorem writeLine_eq (w : Workspace) (d : Dependency) :
    w.writeLine d = recordLine (w.writeFields d) := by
  rw [← String.toList_inj, recordLine_toList, Workspace.writeLine]
  cases hr : d.recommended <;>
    simp [ProductId.text, Workspace.writeFields, Dependency.fields, recordTail, optionalMark, hr]

/-- Nothing is hidden of a product that is not of the workspace. -/
theorem writeFields_of_not_mem {w : Workspace} {d : Dependency} (h : d.product ∉ w.products) :
    w.writeFields d = d.fields := by
  have hwrite : w.write d.product = id := by
    funext v
    exact if_neg fun hv => h hv.2
  simp [Workspace.writeFields, hwrite, Dependency.fields]

theorem run_write {w : Workspace} {id : ProductId} {v : String} (h : Version.isValid v = true) :
    Run isVersionChar (w.write id v) := by
  unfold Workspace.write
  split
  · exact run_placeholder
  · exact run_of_isValid h

theorem shaped_writeFields (w : Workspace) (d : Dependency) : Shaped (w.writeFields d) where
  group := run_of_isIdPart d.product.group_ok
  name := run_of_isIdPart d.product.name_ok
  minimum := run_write d.minimum_ok
  maximum := run_of_isValidOrMatcher d.maximum_ok
  recommended v hv := by
    obtain ⟨r, hr, rfl⟩ := Option.map_eq_some_iff.mp hv
    exact run_write (d.recommended_ok r hr)

/-- The parts of a line are read as they were written. -/
theorem readLine_writeLine (w : Workspace) (d : Dependency) :
    readLine (w.writeLine d) = some (w.writeFields d) :=
  readLine_ok.mpr ⟨shaped_writeFields w d, writeLine_eq w d⟩

end ProductLock.Lockfile
