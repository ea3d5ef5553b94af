import ProductLock.Proofs.Json.Document
import ProductLock.Proofs.Recommendation.Blob

namespace ProductLock.Recommendation

open Schema

/-- A dependency that is taken as a recommendation. Others can be written but not read back. -/
def isRecommendable (d : Dependency) : Bool :=
  Version.isOrderable d.minimum && isMergeableMaximum d.maximum &&
    d.recommended.all Version.isOrderable

theorem accepts_fields_iff {d : Dependency} :
    entryRules.Accepts d.fields ↔ isRecommendable d = true := by
  simp only [accepts_iff, Dependency.fields, d.product.group_ok, d.product.name_ok, true_and,
    isRecommendable, Bool.and_eq_true, Option.all_eq_true, and_assoc]

theorem exists_members (d : Dependency) :
    ∃ members, entry d = .map members ∧ Spells members d.fields := by
  refine ⟨_, rfl, ?_⟩
  unfold Dependency.fields
  cases d.optional with
  | true => cases d.recommended <;> exact ⟨rfl, rfl, rfl, rfl, rfl, .inl rfl⟩
  | false => cases d.recommended <;> exact ⟨rfl, rfl, rfl, rfl, rfl, .inr ⟨rfl, rfl⟩⟩

theorem readEntry_entry {d : Dependency} {f : Dependency.Fields} :
    readEntry entryRules (entry d) = .ok f ↔ isRecommendable d = true ∧ d.fields = f := by
  obtain ⟨members, hmembers, hspells⟩ := exists_members d
  have hgroup : d.fields.group ≠ "" := IdPart.ne_empty d.product.group_ok
  have hname : d.fields.name ≠ "" := IdPart.ne_empty d.product.name_ok
  rw [hmembers, readEntry_ok, ← accepts_fields_iff]
  constructor
  · rintro ⟨⟨_, ⟨⟩, hgives⟩, haccepts⟩
    obtain rfl := (hspells.gives_iff hgroup hname).mp hgives
    exact ⟨haccepts, rfl⟩
  · rintro ⟨haccepts, rfl⟩
    exact ⟨⟨members, rfl, (hspells.gives_iff hgroup hname).mpr rfl⟩, haccepts⟩

/-- The document of a blob. -/
theorem render_eq (ds : List Dependency) :
    render ds = Json.render .line (.map [field listKey (.list (ds.map entry))]) :=
  rfl

theorem readDocument_entries {ds : List Dependency} {fs : List Dependency.Fields} :
    readDocument (.map [field listKey (.list (ds.map entry))]) = .ok fs ↔
      (∀ d ∈ ds, isRecommendable d = true) ∧ ds.map Dependency.fields = fs := by
  have hfind : find listKey "recommended_product_dependencies"
      [field listKey (.list (ds.map entry))] = some (.list (ds.map entry)) := rfl
  rw [readDocument, required_ok]
  simp only [hfind, Option.some.injEq, exists_eq_left', readList_ok, List.forall₂_map_left_iff,
    readEntry_entry, List.forall₂_and_left]
  rw [← List.forall₂_eq_eq_eq, List.forall₂_map_left_iff]

theorem isPlain_entry (d : Dependency) : Json.isPlain (entry d) = true := by
  unfold entry
  cases d.optional <;> cases d.recommended <;> rfl

theorem fault?_entry (d : Dependency) : Json.fault? (entry d) = none := by
  unfold entry
  cases d.optional <;> cases d.recommended <;> rfl

/-- As a document, a blob is read back as it was written. -/
theorem parse_json_render (ds : List Dependency) :
    Json.parse (render ds) = .ok (.map [field listKey (.list (ds.map entry))]) := by
  have hplain : Json.arePlain (ds.map entry) = true := by
    rw [Json.arePlain_eq_true, List.forall_mem_map]
    exact fun d _ => isPlain_entry d
  have hfault : Json.itemsFault? (ds.map entry) = none := by
    rw [Json.itemsFault?_eq_none, List.forall_mem_map]
    exact fun d _ => fault?_entry d
  rw [render_eq]
  apply Json.parse_render_plain _ _ Json.escapeAll_line
  · simp [Json.fault?, Json.membersFault?, field, Json.leafFault?, hfault]
  · simp [Json.isPlain, Json.membersPlain, field, hplain]

theorem readBlob_render (ds : List Dependency) : readBlob (.text (render ds)) =
    .ok ((readDocument (.map [field listKey (.list (ds.map entry))])).mapError .invalid) := by
  simp only [readBlob, parse_json_render]

/-- One dependency that is no recommendation spoils the blob for all. -/
theorem contributes_render (ds : List Dependency) :
    Contributes (some (.text (render ds))) (if ds.all isRecommendable then ds else []) := by
  cases hread : readDocument (.map [field listKey (.list (ds.map entry))]) with
  | ok fs =>
    obtain ⟨hall, rfl⟩ := readDocument_entries.mp hread
    rw [if_pos (List.all_eq_true.mpr hall)]
    exact .usable (by rw [readBlob_render, hread]; rfl)
  | error issues =>
    have hsome : ¬ ds.all isRecommendable = true := by
      intro hall
      rw [readDocument_entries.mpr ⟨List.all_eq_true.mp hall, rfl⟩] at hread
      contradiction
    rw [if_neg hsome]
    exact .unusable (by rw [readBlob_render, hread]; rfl)

/-- What a product recommends is read back from its blob as it is, if all of it can be merged, and
otherwise not at all. -/
theorem parse_rendered (source : Option String) (ds : List Dependency) :
    (parse source (.text (render ds))).result =
      .ok (if ds.all isRecommendable then ds else []) :=
  parse_ok.mpr (contributes_render ds)

end ProductLock.Recommendation
