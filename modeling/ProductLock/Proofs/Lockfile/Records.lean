import ProductLock.Proofs.Lockfile.RoundTrip

namespace ProductLock.Lockfile

open Dependency

variable {version : Option String} {path : Option Path} {number : Nat} {line field v : String}
  {f g : Fields} {d : Dependency} {e : Failure}

/-- The version that a field stands for. -/
def spell (version : Option String) (field : String) : String :=
  if field = placeholder then version.getD field else field

/-- The placeholder stands for a version only in place of the minimum and of the recommendation. -/
def spellFields (version : Option String) (f : Fields) : Fields :=
  { f with
    minimum := spell version f.minimum
    recommended := f.recommended.map (spell version) }

/-- A consumer without a version can make nothing of the placeholder. -/
def Spellable (version : Option String) (f : Fields) : Prop :=
  version = none → f.minimum ≠ placeholder ∧ f.recommended ≠ some placeholder

theorem expand_eq (version : Option String) (field : String) : expand version field =
    if version = none ∧ field = placeholder then none else some (spell version field) := by
  unfold expand spell
  cases version <;> by_cases h : field = placeholder <;> simp [h]

theorem expandFields_of_spellable (h : Spellable version f) :
    expandFields version f = some (spellFields version f) := by
  have hmin : ¬ (version = none ∧ f.minimum = placeholder) := fun hx => (h hx.1).1 hx.2
  cases hr : f.recommended with
  | none => simp [expandFields, spellFields, expand_eq, if_neg hmin, hr]
  | some r =>
    have hrec : ¬ (version = none ∧ r = placeholder) := by
      rintro ⟨hnone, rfl⟩
      exact (h hnone).2 hr
    simp [expandFields, spellFields, expand_eq, if_neg hmin, if_neg hrec, hr]

theorem spellable_of_expandFields (h : expandFields version f = some g) : Spellable version f := by
  rintro rfl
  simp only [expandFields, Option.bind_eq_bind, Option.bind_eq_some_iff] at h
  obtain ⟨minimum, hmin, h⟩ := h
  constructor
  · intro hplaceholder
    rw [hplaceholder] at hmin
    contradiction
  · intro hplaceholder
    rw [hplaceholder] at h
    contradiction

theorem expandFields_ok :
    expandFields version f = some g ↔ Spellable version f ∧ spellFields version f = g := by
  constructor
  · intro h
    have hspellable := spellable_of_expandFields h
    rw [expandFields_of_spellable hspellable] at h
    exact ⟨hspellable, Option.some.inj h⟩
  · rintro ⟨hspellable, rfl⟩
    exact expandFields_of_spellable hspellable

/-- A line that records a dependency: the parts of the dependency stand between its marks, where the
placeholder may stand for the consumer's own version. -/
def Records (version : Option String) (line : String) (d : Dependency) : Prop :=
  ∃ f, line = recordLine f ∧ Spellable version f ∧ spellFields version f = d.fields

theorem run_of_spell (h : Version.isValid (spell version field) = true) :
    Run isVersionChar field := by
  unfold spell at h
  split at h
  · next hplaceholder =>
    rw [hplaceholder]
    exact run_placeholder
  · exact run_of_isValid h

theorem shaped_of_spelled (h : spellFields version f = d.fields) : Shaped f := by
  have hgroup : f.group = d.product.group := congrArg Fields.group h
  have hname : f.name = d.product.name := congrArg Fields.name h
  have hminimum : spell version f.minimum = d.minimum := congrArg Fields.minimum h
  have hmaximum : f.maximum = d.maximum := congrArg Fields.maximum h
  have hrecommended : f.recommended.map (spell version) = d.recommended :=
    congrArg Fields.recommended h
  refine ⟨?_, ?_, ?_, ?_, ?_⟩
  · exact hgroup ▸ run_of_isIdPart d.product.group_ok
  · exact hname ▸ run_of_isIdPart d.product.name_ok
  · exact run_of_spell (hminimum ▸ d.minimum_ok)
  · exact hmaximum ▸ run_of_isValidOrMatcher d.maximum_ok
  · intro r hr
    rw [hr, Option.map_some] at hrecommended
    exact run_of_spell (d.recommended_ok _ hrecommended.symm)

/-- What a line has between its marks, with the placeholder spelled out. -/
theorem readLine_expandFields : (readLine line).bind (expandFields version) = some g ↔
    ∃ f, Shaped f ∧ line = recordLine f ∧ Spellable version f ∧ spellFields version f = g := by
  simp only [Option.bind_eq_some_iff, readLine_ok, expandFields_ok, and_assoc]

theorem readRecord_ok : readRecord version path number line = .ok d ↔ Records version line d := by
  have hparts : Records version line d ↔
      (readLine line).bind (expandFields version) = some d.fields := by
    rw [readLine_expandFields]
    constructor
    · rintro ⟨f, hline, hspellable, hspelled⟩
      exact ⟨f, shaped_of_spelled hspelled, hline, hspellable, hspelled⟩
    · rintro ⟨f, _, hline, hspellable, hspelled⟩
      exact ⟨f, hline, hspellable, hspelled⟩
  rw [hparts, readRecord]
  constructor
  · intro h
    split at h
    · contradiction
    · next fields hfields =>
      split at h
      · contradiction
      · rw [hfields, Fields.check_ok.mp h]
  · intro h
    have hcheck : d.fields.check = .ok d := Fields.check_ok.mpr rfl
    simp only [h, hcheck]

/-- A line that has the form of a record, but on a group or a name that no product can have. -/
def Misnamed (version : Option String) (line : String) (fault : IdFault) : Prop :=
  ∃ f, Shaped f ∧ line = recordLine f ∧ Spellable version f ∧
    ProductId.ofParts f.group f.name = .error fault

/-- What is said of a line that records nothing: the fault of its id, where it has one, and else no
more than that it is malformed. -/
inductive Complaint (version : Option String) (path : Option Path) (number : Nat) (line : String) :
    Failure → Prop where
  | misnamed (h : Misnamed version line fault) : Complaint version path number line (.id fault)
  | malformed (h : ∀ fault, ¬ Misnamed version line fault) :
      Complaint version path number line (.lockfileLine path number line)

theorem readRecord_misnamed (h : Misnamed version line fault) :
    readRecord version path number line = .error (.id fault) := by
  obtain ⟨f, hshaped, hline, hspellable, hid⟩ := h
  have hparts : (readLine line).bind (expandFields version) = some (spellFields version f) :=
    readLine_expandFields.mpr ⟨f, hshaped, hline, hspellable, rfl⟩
  have hcheck : (spellFields version f).check = .error (.id fault) := Fields.check_of_id_error hid
  simp only [readRecord, hparts, hcheck]

/-- Where no id is at fault, a line that is refused is called malformed. -/
theorem readRecord_malformed (hid : ∀ fault, ¬ Misnamed version line fault)
    (h : readRecord version path number line = .error e) :
    e = .lockfileLine path number line := by
  unfold readRecord at h
  split at h
  · cases h
    rfl
  · next fields hfields =>
    obtain ⟨f, hshaped, hline, hspellable, hspelled⟩ := readLine_expandFields.mp hfields
    split at h
    · cases h
      rfl
    · next hother =>
      rcases Fields.check_error h with ⟨fault, hfault, _⟩ | ⟨_, v, expected, subject, rfl⟩
      · rw [← hspelled] at hfault
        exact absurd ⟨f, hshaped, hline, hspellable, hfault⟩ (hid fault)
      · exact absurd h (hother v expected subject)

theorem readRecord_error : readRecord version path number line = .error e ↔
    (¬ ∃ d, Records version line d) ∧ Complaint version path number line e := by
  constructor
  · intro h
    refine ⟨?_, ?_⟩
    · rintro ⟨d, hd⟩
      rw [readRecord_ok.mpr hd] at h
      contradiction
    · by_cases hid : ∃ fault, Misnamed version line fault
      · obtain ⟨fault, hfault⟩ := hid
        rw [readRecord_misnamed hfault] at h
        cases h
        exact .misnamed hfault
      · have hnone := not_exists.mp hid
        rw [readRecord_malformed hnone h]
        exact .malformed hnone
  · rintro ⟨hnone, hcomplaint⟩
    cases hcomplaint with
    | misnamed hid => exact readRecord_misnamed hid
    | malformed hid =>
      cases h : readRecord version path number line with
      | ok d => exact absurd ⟨d, readRecord_ok.mp h⟩ hnone
      | error e => rw [readRecord_malformed hid h]

/-- A line that does no harm: it is blank, or a comment, or records a dependency. -/
def Sound (version : Option String) (line : String) : Prop :=
  isSkipped line = true ∨ ∃ d, Records version line d

theorem readRecords_ok {lines : List String} {ds : List Dependency} :
    readRecords version path number lines = .ok ds ↔
      List.Forall₂ (Records version) (lines.filter fun line => !isSkipped line) ds := by
  induction lines generalizing number ds with
  | nil => simp [readRecords, eq_comm]
  | cons line lines ih =>
    rw [readRecords]
    split
    · next hskipped => simp [hskipped, ih]
    · next hkept =>
      simp only [bind_ok, readRecord_ok, ih, pure_ok, Except.ok.injEq]
      simp [hkept, List.forall₂_cons_left_iff, eq_comm]

theorem exists_readRecords {lines : List String} :
    (∃ ds, readRecords version path number lines = .ok ds) ↔
      ∀ line ∈ lines, Sound version line := by
  induction lines generalizing number with
  | nil => simp [readRecords]
  | cons line lines ih =>
    rw [readRecords, List.forall_mem_cons, ← @ih (number + 1), Sound]
    split
    · next hskipped => simp [hskipped]
    · next hkept =>
      simp only [hkept, Bool.false_eq_true, false_or, bind_ok, readRecord_ok, pure_ok,
        Except.ok.injEq]
      constructor
      · rintro ⟨_, d, hd, ds, hds, _⟩
        exact ⟨⟨d, hd⟩, ds, hds⟩
      · rintro ⟨⟨d, hd⟩, ds, hds⟩
        exact ⟨d :: ds, d, hd, ds, hds, rfl⟩

/-- A sound line is passed, and any other ends the reading. -/
theorem readRecords_cons_error {lines : List String} :
    readRecords version path number (line :: lines) = .error e ↔
      Sound version line ∧ readRecords version path (number + 1) lines = .error e ∨
        ¬ Sound version line ∧ Complaint version path number line e := by
  rw [readRecords, Sound]
  split
  · next hskipped => simp [hskipped]
  · next hkept =>
    simp only [hkept, Bool.false_eq_true, false_or, bind_error, readRecord_ok, readRecord_error,
      pure_ok, reduceCtorEq, and_false, exists_false, or_false, exists_and_right]
    exact or_comm

/-- Reading stops at the first line that is not sound. -/
theorem readRecords_error {lines : List String} :
    readRecords version path number lines = .error e ↔
      ∃ before line after, lines = before ++ line :: after ∧ (∀ l ∈ before, Sound version l) ∧
        ¬ Sound version line ∧ Complaint version path (number + before.length) line e := by
  induction lines generalizing number with
  | nil => simp [readRecords]
  | cons head lines ih =>
    refine Iff.trans ?_ (exists_first_cons (Q := fun n line =>
      ¬ Sound version line ∧ Complaint version path (number + n) line e)).symm
    rw [readRecords_cons_error, ih, or_comm]
    simp only [Nat.add_zero, Nat.add_right_comm number, Nat.add_assoc]

theorem parse_text_ok {text : String} {r : Report} : parse (some text) version path = .ok r ↔
    ∃ ds, List.Forall₂ (Records version)
      (((Text.lines text).map Text.Line.body).filter fun line => !isSkipped line) ds ∧
        .of ds = r := by
  simp only [parse, bind_ok, readRecords_ok, pure_ok, Except.ok.injEq]

theorem parse_text_error {text : String} : parse (some text) version path = .error e ↔
    readRecords version path 1 ((Text.lines text).map Text.Line.body) = .error e := by
  simp only [parse, bind_error, pure_ok, reduceCtorEq, and_false, exists_false, or_false]

/-- A text is read exactly if all of its lines are sound. Otherwise the first line that is not is
reported by its number, unless it has the form of a record but a group or a name that no product can
have: then nothing but the fault of that part is reported. -/
theorem parse_by_lines {text : String} :
    ((∃ r, parse (some text) version path = .ok r) ↔
      ∀ line ∈ (Text.lines text).map Text.Line.body, Sound version line) ∧
    ∀ e, parse (some text) version path = .error e ↔
      ∃ before line after, (Text.lines text).map Text.Line.body = before ++ line :: after ∧
        (∀ l ∈ before, Sound version l) ∧ ¬ Sound version line ∧
        Complaint version path (before.length + 1) line e := by
  constructor
  · rw [← @exists_readRecords version path 1]
    simp only [parse_text_ok, readRecords_ok]
    constructor
    · rintro ⟨_, ds, hds, _⟩
      exact ⟨ds, hds⟩
    · rintro ⟨ds, hds⟩
      exact ⟨.of ds, ds, hds, rfl⟩
  · intro e
    simp only [parse_text_error, readRecords_error, Nat.add_comm 1]

/-- The record of a dependency on a product whose group has a parenthesis in it. -/
def parenthesised : String := "com(example:lib (1.0.0, 1.x.x)"

/-- The line is not sound, and what is reported for it is no malformed line. -/
theorem parenthesised_is_unplaced : ¬ Sound none parenthesised ∧
    parse (some parenthesised) none none = .error (.id (.part .group "com(example")) ∧
    ∀ path number line, parse (some parenthesised) none none ≠
      .error (.lockfileLine path number line) := by
  have hrecord : readRecord none none 1 parenthesised =
      .error (.id (.part .group "com(example")) := rfl
  have hlines : (Text.lines parenthesised).map Text.Line.body = [parenthesised] := by
    decide +kernel
  have hskipped : isSkipped parenthesised = false := rfl
  have hparse : parse (some parenthesised) none none =
      .error (.id (.part .group "com(example")) := by
    rw [parse_text_error, hlines, readRecords, hskipped, hrecord]
    rfl
  refine ⟨?_, hparse, ?_⟩
  · rintro (h | h)
    · rw [hskipped] at h
      contradiction
    · exact (readRecord_error.mp hrecord).1 h
  · intro path number line h
    rw [hparse] at h
    cases h

end ProductLock.Lockfile
