import ProductLock.Proofs.Lockfile.Records

namespace ProductLock.Lockfile

open Dependency

variable {version : Option String} {path : Option Path} {line : String} {d : Dependency}

/-- A line that is what would be written for a dependency if nothing were hidden, save that the
placeholder may stand in it for the consumer's own version. -/
def Restates (version : Option String) (line : String) (d : Dependency) : Prop :=
  ∃ f, Shaped f ∧ line = recordLine f ∧
    Workspace.writeLine ⟨[], version⟩ d = recordLine (spellFields version f)

theorem Records.restates (h : Records version line d) : Restates version line d := by
  obtain ⟨f, hline, _, hspelled⟩ := h
  refine ⟨f, shaped_of_spelled hspelled, hline, ?_⟩
  rw [writeLine_eq, writeFields_of_not_mem List.not_mem_nil, hspelled]

/-- A line that is read as a record is none that would be taken for a comment when written again. -/
theorem Records.not_lost (h : Records version line d) (hkept : isSkipped line = false) :
    isLost d = false := by
  obtain ⟨f, rfl, _, hspelled⟩ := h
  have hgroup : f.group = d.product.group := congrArg Fields.group hspelled
  rw [isSkipped_recordLine (shaped_of_spelled hspelled).group, hgroup] at hkept
  exact hkept

/-- A text that is read has one record for each line that is no comment and not blank, and each says
what its line says. What was read is read again from any lockfile that is written for it. -/
theorem parse_normalises {text : String} {r : Report}
    (h : parse (some text) version path = .ok r) :
    (∃ ds, List.Forall₂ (Restates version)
        (((Text.lines text).map Text.Line.body).filter fun line => !isSkipped line) ds ∧
      r.Arranges ds) ∧
    ∀ products path', parse (render ⟨products, version⟩ r) version path' = .ok r := by
  obtain ⟨ds, hrecords, rfl⟩ := parse_text_ok.mp h
  refine ⟨⟨ds, hrecords.imp fun _ _ => Records.restates, Report.of_arranges ds⟩, ?_⟩
  intro products path'
  have hlines : ∀ line ∈ ((Text.lines text).map Text.Line.body).filter fun line => !isSkipped line,
      isSkipped line = false := by
    intro line hline
    simpa using (List.mem_filter.mp hline).2
  -- A record begins like its line, and no line that was read begins like a comment.
  have hboth := (List.forall₂_and_left _ _).mpr ⟨hlines, hrecords⟩
  have hkept : ∀ d ∈ ds, isLost d = false := by
    intro d hd
    obtain ⟨line, hline, hrecord⟩ := forall₂_left hboth.flip d hd
    exact hrecord.not_lost hline
  have hall : ∀ d ∈ (Report.of ds).dependencies, (!isLost d) = true := by
    intro d hd
    rw [hkept d (Report.mem_of.mp hd)]
    rfl
  have hparse := parse_render ⟨products, version⟩ (.of ds) path'
  rw [List.filter_eq_self.mpr hall, Report.of_dependencies] at hparse
  exact hparse

/-- A lockfile that was edited by hand: out of order, with the placeholder for a product of another
workspace, and with two lines on one product. -/
def edited : String :=
  "# by hand\n\nb:b (1.0.0, 2.x.x)\r\na:a ($projectVersion, 1.x.x, 1.2.0) optional\nb:b (1.1.0, 3.0.0)"

def editedRecords : List Dependency :=
  [.ofFields ⟨"b", "b", "1.0.0", "2.x.x", none, false⟩ rfl,
    .ofFields ⟨"a", "a", "1.2.0", "1.x.x", some "1.2.0", true⟩ rfl,
    .ofFields ⟨"b", "b", "1.1.0", "3.0.0", none, false⟩ rfl]

theorem edited_is_normalised :
    parse (some edited) (some "1.2.0") none = .ok (.of editedRecords) ∧
    ∀ products, parse (render ⟨products, some "1.2.0"⟩ (.of editedRecords)) (some "1.2.0") none =
      .ok (.of editedRecords) := by
  have h : (parse (some edited) (some "1.2.0") none).toOption = some (.of editedRecords) := by
    decide +kernel
  have hread := toOption_eq_some.mp h
  exact ⟨hread, fun products => (parse_normalises hread).2 products none⟩

end ProductLock.Lockfile
