import ProductLock.Proofs.Lockfile.Line
import ProductLock.Proofs.Report
import ProductLock.Proofs.Text.Lines

namespace ProductLock.Lockfile

/-- The line of a product whose group begins like a comment is taken for one. -/
def isLost (d : Dependency) : Bool :=
  d.product.group.toList.head? == some '#'

theorem ne_placeholder {s : String} (h : Version.isValid s = true) : s ≠ placeholder := by
  intro hs
  subst hs
  exact absurd (Version.plain_of_isValid h '$' (by decide)) (by decide)

/-- What was written for a version stands for it again. -/
theorem expand_write {w : Workspace} {id : ProductId} {v : String} (h : v ≠ placeholder) :
    expand w.version (w.write id v) = some v := by
  unfold Workspace.write expand
  by_cases hw : w.version = some v ∧ id ∈ w.products
  · rw [if_pos hw, if_pos rfl, hw.1]
  · rw [if_neg hw, if_neg h]

theorem expandFields_writeLine (w : Workspace) (d : Dependency) :
    (readLine (w.writeLine d)).bind (expandFields w.version) = some d.fields := by
  have hmin : expand w.version (w.write d.product d.minimum) = some d.minimum :=
    expand_write (ne_placeholder d.minimum_ok)
  have hrec := d.recommended_ok
  rw [readLine_writeLine, Option.bind_some]
  simp only [expandFields, Workspace.writeFields, Dependency.fields, hmin, Option.bind_eq_bind,
    Option.bind_some]
  cases hr : d.recommended with
  | none => rfl
  | some v =>
    have hv : expand w.version (w.write d.product v) = some v :=
      expand_write (ne_placeholder (hrec v hr))
    simp [hv]

theorem readRecord_writeLine (w : Workspace) (path : Option Path) (number : Nat) (d : Dependency) :
    readRecord w.version path number (w.writeLine d) = .ok d := by
  have hcheck : d.fields.check = .ok d := Dependency.Fields.check_ok.mpr rfl
  simp only [readRecord, expandFields_writeLine, hcheck]

theorem not_blank_of_isNameChar (c : Char) (h : isNameChar c = true) : Text.isBlank c = false := by
  simp only [isNameChar, Bool.and_eq_true, Bool.not_eq_true'] at h
  exact h.1

theorem not_blank_of_isVersionChar (c : Char) (h : isVersionChar c = true) :
    Text.isBlank c = false := by
  simp only [isVersionChar, Bool.and_eq_true, Bool.not_eq_true'] at h
  exact h.1.1.1

theorem isSkipped_recordLine {f : Dependency.Fields} (h : Run isNameChar f.group) :
    isSkipped (recordLine f) = (f.group.toList.head? == some '#') := by
  cases hg : f.group.toList with
  | nil => exact absurd hg h.ne_nil
  | cons c cs =>
    have hc : Text.isBlank c = false :=
      not_blank_of_isNameChar c (h.chars c (hg ▸ List.mem_cons_self))
    simp [isSkipped, Text.allBlank, recordLine_toList, hg, hc]

theorem isSkipped_writeLine (w : Workspace) (d : Dependency) :
    isSkipped (w.writeLine d) = isLost d := by
  rw [writeLine_eq, isSkipped_recordLine (shaped_writeFields w d).group]
  rfl

/-- Every line is read as the dependency that it was written for, or not at all. -/
theorem readRecords_writeLines (w : Workspace) (path : Option Path) (number : Nat)
    (ds : List Dependency) : readRecords w.version path number (ds.map w.writeLine) =
      .ok (ds.filter fun d => !isLost d) := by
  induction ds generalizing number with
  | nil => rfl
  | cons d ds ih =>
    rw [List.map_cons, readRecords, isSkipped_writeLine, ih, readRecord_writeLine]
    cases hd : isLost d with
    | true => simp [hd]
    | false =>
      simp [hd]
      rfl

theorem Run.unbroken {p : Char → Bool} {s : String} (h : Run p s)
    (hp : ∀ c, p c = true → Text.isBlank c = false) : Text.Unbroken s.toList :=
  Text.unbroken_of_not_blank fun c hc => hp c (h.chars c hc)

theorem unbroken_recordTail {r : Option String} (hr : ∀ v, r = some v → Run isVersionChar v) :
    Text.Unbroken (recordTail r) := by
  cases r with
  | none => exact fun _ h => nomatch h
  | some v =>
    have hv := (hr v rfl).unbroken not_blank_of_isVersionChar
    exact Text.unbroken_cons.mpr ⟨rfl, Text.unbroken_cons.mpr ⟨rfl, hv⟩⟩

theorem unbroken_optionalMark (o : Bool) : Text.Unbroken (optionalMark o).toList := by
  have hall : ∀ o, (optionalMark o).toList.all (fun c => !Text.isLineBreak c) = true := by decide
  intro c hc
  simpa using List.all_eq_true.mp (hall o) c hc

theorem Shaped.unbroken {f : Dependency.Fields} (h : Shaped f) :
    Text.Unbroken (recordLine f).toList := by
  rw [recordLine_toList]
  simp only [Text.unbroken_append, Text.unbroken_cons]
  exact ⟨h.group.unbroken not_blank_of_isNameChar, rfl, h.name.unbroken not_blank_of_isNameChar,
    rfl, rfl, h.minimum.unbroken not_blank_of_isVersionChar, rfl, rfl,
    h.maximum.unbroken not_blank_of_isVersionChar, unbroken_recordTail h.recommended, rfl,
    unbroken_optionalMark f.optional⟩

/-- The header without its line feed. -/
def headerBody : String := "# Run `productdeps resolve --write-locks` to regenerate this file"

def textLines (w : Workspace) (r : Report) : List String :=
  headerBody :: r.dependencies.map w.writeLine

theorem unbroken_textLines (w : Workspace) (r : Report) :
    ∀ b ∈ textLines w r, Text.Unbroken b.toList := by
  intro b hb
  rcases List.mem_cons.mp hb with rfl | hb
  · have hall : headerBody.toList.all (fun c => !Text.isLineBreak c) = true := rfl
    intro c hc
    simpa using List.all_eq_true.mp hall c hc
  · obtain ⟨d, _, rfl⟩ := List.mem_map.mp hb
    rw [writeLine_eq]
    exact (shaped_writeFields w d).unbroken

theorem render_of_ne_nil {w : Workspace} {r : Report} (h : r.dependencies ≠ []) :
    render w r = some (String.join ((textLines w r).map fun b => b ++ "\n")) := by
  have hheader : header = headerBody ++ "\n" := rfl
  rw [render, if_neg h, Option.some.injEq, ← String.toList_inj, hheader]
  simp [textLines, List.flatMap_map]

/-- Reading a rendered lockfile gives the dependencies whose lines are not taken for comments. -/
theorem parse_render (w : Workspace) (r : Report) (path : Option Path) :
    parse (render w r) w.version path = .ok (.of (r.dependencies.filter fun d => !isLost d)) := by
  by_cases hnil : r.dependencies = []
  · rw [render, if_pos hnil, hnil]
    rfl
  · have hheader : isSkipped headerBody = true := rfl
    simp only [render_of_ne_nil hnil, parse, Text.lines_join (unbroken_textLines w r)]
    rw [textLines, readRecords, if_pos hheader, readRecords_writeLines]
    rfl

/-- A report is read back as it was written exactly if no group in it begins like a comment. -/
theorem parse_render_eq_iff {w : Workspace} {r : Report} {path : Option Path} :
    parse (render w r) w.version path = .ok r ↔
      ∀ d ∈ r.dependencies, d.product.group.toList.head? ≠ some '#' := by
  have hkept : (∀ d ∈ r.dependencies, d.product.group.toList.head? ≠ some '#') ↔
      ∀ d ∈ r.dependencies, (!isLost d) = true := by
    simp [isLost]
  rw [parse_render, hkept, Except.ok.injEq]
  constructor
  · intro h d hd
    rw [← h, Report.mem_of] at hd
    exact (List.mem_filter.mp hd).2
  · intro h
    rw [List.filter_eq_self.mpr h, Report.of_dependencies]

/-- A dependency on a product whose group begins like a comment. -/
def commented : Dependency :=
  .ofFields ⟨"#com.example", "lib", "1.0.0", "1.x.x", none, false⟩ rfl

theorem commented_is_lost : parse (render {} (.of [commented])) none none = .ok (.of []) ∧
    parse (render {} (.of [commented])) none none ≠ .ok (.of [commented]) := by
  have h : (parse (render {} (.of [commented])) none none).toOption = some (.of []) := by
    decide +kernel
  rw [toOption_eq_some.mp h]
  refine ⟨rfl, ?_⟩
  have hne : Report.of [] ≠ .of [commented] := by decide +kernel
  exact fun he => hne (Except.ok.inj he)

end ProductLock.Lockfile
