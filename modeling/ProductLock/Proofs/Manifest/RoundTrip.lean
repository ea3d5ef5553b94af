import ProductLock.Proofs.Json.Exact
import ProductLock.Proofs.Manifest.Extensions

namespace ProductLock.Manifest

variable {version : String} {r : Report} {extensions document : List (String × Value)}

theorem text_injective : Function.Injective Value.text :=
  fun _ _ => Value.text.inj

/-- A document is exact if its values are. -/
theorem exact_toValue (hkeys : (document.map Prod.fst).Nodup)
    (h : ∀ e ∈ document, Json.Exact e.2) : Json.Exact (toValue document) := by
  refine .map ?_ ?_ ?_
  · have hmap : (document.map fun e => (Value.text e.1, e.2)).map Prod.fst =
        (document.map Prod.fst).map Value.text := by
      simp
    rw [hmap]
    exact hkeys.map text_injective
  · exact List.forall_mem_map.mpr fun e _ => .text e.1
  · exact List.forall_mem_map.mpr h

theorem exact_text (s : String) : Json.Exact (.text s) :=
  .string (.text s)

theorem exact_entry (d : Dependency) : Json.Exact (entry d) := by
  unfold entry
  cases d.recommended <;>
    exact .map (by simp) (by simp [Json.IsString.text]) (by simp [exact_text, Json.Exact.bool])

theorem exact_entries (r : Report) : Json.Exact (entries r) :=
  .list (List.forall_mem_map.mpr fun d _ => exact_entry d)

theorem exact_header (product : ProductId) (type : ProductType) (version : String) (r : Report) :
    ∀ e ∈ header product type version r, Json.Exact e.2 := by
  simp [header, exact_text, exact_entries]

/-- A document from exact extensions is exact. -/
theorem exact_of_build {product : ProductId} {type : String}
    (hkeys : (extensions.map Prod.fst).Nodup) (hexact : ∀ e ∈ extensions, Json.Exact e.2)
    (h : (build product type version r extensions).result = .ok document) :
    Json.Exact (toValue document) := by
  have hadds := adds_extras hkeys
  obtain ⟨type, rfl, hfree⟩ := build_ok h
  have hmem (e : String × Value) (he : e ∈ extras extensions) : e ∈ extensions :=
    ((hadds.mem_iff e.1 e.2).mp he).1
  apply exact_toValue
  · rw [List.map_append, List.nodup_append]
    refine ⟨(by decide : reservedKeys.Nodup), hadds.ascending.imp ne_of_lt, ?_⟩
    rintro key hkey _ hother rfl
    obtain ⟨e, he, rfl⟩ := List.mem_map.mp hother
    exact hfree e (hmem e he) hkey
  · rw [List.forall_mem_append]
    exact ⟨exact_header product type version r, fun e he => hexact e (hmem e he)⟩

theorem isSpace_feed : ∀ c ∈ "\n".toList, Json.isSpace c = true :=
  List.all_eq_true.mp rfl

/-- An exact document can be written, and is read back as it is. -/
theorem parse_render_exact (h : Json.Exact (toValue document)) :
    ∃ text, render document = .ok text ∧ Json.parse text = .ok (toValue document) := by
  refine ⟨Json.render .page (toValue document) ++ "\n", ?_, h.parse_render rfl isSpace_feed⟩
  rw [render, Json.render?, h.fault]
  rfl

/-- An item that has the fields of a dependency under their names. No recommendation is told by none
being there. -/
def Shows (item : Value) (d : Dependency) : Prop :=
  ∃ members, item = .map members ∧
    Value.lookup "product-group" members = some (.text d.product.group) ∧
    Value.lookup "product-name" members = some (.text d.product.name) ∧
    Value.lookup "minimum-version" members = some (.text d.minimum) ∧
    Value.lookup "maximum-version" members = some (.text d.maximum) ∧
    Value.lookup "recommended-version" members = d.recommended.map Value.text ∧
    Value.lookup "optional" members = some (.bool d.optional)

theorem shows_entry (d : Dependency) : Shows (entry d) d := by
  refine ⟨_, rfl, ?_⟩
  cases d.recommended <;> exact ⟨rfl, rfl, rfl, rfl, rfl, rfl⟩

/-- An item tells the whole dependency. -/
theorem Shows.unique {item : Value} {d e : Dependency} (hd : Shows item d) (he : Shows item e) :
    e = d := by
  obtain ⟨members, rfl, hgroup, hname, hminimum, hmaximum, hrecommended, hoptional⟩ := hd
  obtain ⟨_, ⟨⟩, hgroup', hname', hminimum', hmaximum', hrecommended', hoptional'⟩ := he
  have hrec := Option.map_injective text_injective (hrecommended'.symm.trans hrecommended)
  rw [hgroup, Option.some.injEq, Value.text.injEq] at hgroup'
  rw [hname, Option.some.injEq, Value.text.injEq] at hname'
  rw [hminimum, Option.some.injEq, Value.text.injEq] at hminimum'
  rw [hmaximum, Option.some.injEq, Value.text.injEq] at hmaximum'
  rw [hoptional, Option.some.injEq, Value.bool.injEq] at hoptional'
  apply Dependency.eq_of_fields
  rw [Dependency.fields, Dependency.fields, ← hgroup', ← hname', ← hminimum', ← hmaximum', hrec,
    ← hoptional']

theorem parse_renderReport (r : Report) :
    Json.parse (renderReport r) = .ok (.map [(.text dependenciesKey, entries r)]) := by
  have hexact : Json.Exact (toValue [(dependenciesKey, entries r)]) :=
    exact_toValue (List.nodup_singleton _) (by simp [exact_entries])
  exact hexact.parse_render rfl isSpace_feed

theorem entry_injective : Function.Injective entry := by
  intro d e h
  have hshows := shows_entry e
  rw [← h] at hshows
  exact hshows.unique (shows_entry d)

/-- Reports that are written alike are alike. -/
theorem renderReport_injective : Function.Injective renderReport := by
  intro r s h
  have hparse := parse_renderReport r
  rw [h, parse_renderReport s] at hparse
  have hentries : s.dependencies.map entry = r.dependencies.map entry := by
    simpa [entries] using hparse
  have hsame := List.map_injective_iff.mpr entry_injective hentries
  cases r
  cases s
  rw [Report.mk.injEq]
  exact hsame.symm

theorem shows_entries (ds : List Dependency) : List.Forall₂ Shows (ds.map entry) ds := by
  rw [List.forall₂_map_left_iff, List.forall₂_same]
  exact fun d _ => shows_entry d

/-- With a valid version and no reserved key a manifest is built and written, and its text is read as
the document that it was, in the same order. A report is read as one item for each dependency, in its
order, which tells the whole of it: two reports are written alike only if they are the same. -/
theorem parse_documents (product : ProductId) (type : ProductType) (r : Report)
    (hversion : Version.isValid version = true) (hkeys : (extensions.map Prod.fst).Nodup)
    (hexact : ∀ e ∈ extensions, Json.Exact e.2) :
    ((∃ document, (build product type.name version r extensions).result = .ok document) ↔
      ∀ e ∈ extensions, e.1 ∉ reservedKeys) ∧
    (∀ document, (build product type.name version r extensions).result = .ok document →
      ∃ text, render document = .ok text ∧ Json.parse text = .ok (toValue document)) ∧
    (∃ items, Json.parse (renderReport r) = .ok (.map [(.text dependenciesKey, .list items)]) ∧
      List.Forall₂ Shows items r.dependencies) ∧
    (∀ item d d', Shows item d → Shows item d' → d' = d) ∧
    ∀ r', renderReport r' = renderReport r → r' = r := by
  refine ⟨?_, ?_, ?_, ?_, ?_⟩
  · have hown := build_own product type r hversion
    simp only [build_ok_iff, hown]
    constructor
    · rintro ⟨_, hfree, -⟩
      exact hfree
    · intro hfree
      exact ⟨_, hfree, _, rfl, rfl⟩
  · intro document h
    exact parse_render_exact (exact_of_build hkeys hexact h)
  · exact ⟨_, parse_renderReport r, shows_entries r.dependencies⟩
  · exact fun item d d' hd hd' => hd.unique hd'
  · exact fun r' h => renderReport_injective h

/-- An object within another that has empty ones, a number, and a string in which a surrogate is
alone. -/
def nested : List (String × Value) :=
  [("zone", .map [(.text "län", .list [.map [], .list [], .null, .bool false, .int (-12)]),
      (.text "", .points [0x61, 0xD83D])]),
    ("area", .text "😀\n")]

theorem exact_nested : ∀ e ∈ nested, Json.Exact e.2 := by
  have hitems : Json.Exact (.list [.map [], .list [], .null, .bool false, .int (-12)]) := by
    have hempty : Json.Exact (.map []) := .map List.nodup_nil nofun nofun
    have hnumber : Json.Exact (.int (-12)) := .int (by decide)
    exact .list (by simp [hempty, hnumber, Json.Exact.list, Json.Exact.null, Json.Exact.bool])
  have halone : Json.IsString (.points [0x61, 0xD83D]) :=
    .points ⟨by decide, ⟨0xD83D, by decide, rfl⟩, by simp [Json.isHighSurrogate]⟩
  have hzone : Json.Exact (.map
      [(.text "län", .list [.map [], .list [], .null, .bool false, .int (-12)]),
        (.text "", .points [0x61, 0xD83D])]) :=
    .map (by simp) (by simp [Json.IsString.text]) (by simp [hitems, Json.Exact.string halone])
  simp [nested, hzone, exact_text]

/-- A dependency without a recommendation. -/
def unadvised : Dependency :=
  .ofFields ⟨"shop.backend", "stock", "1.0.0", "1.x.x", none, true⟩ rfl

theorem parse_documents_nested :
    Version.isValid "1.0.0-rc1" = true ∧ (nested.map Prod.fst).Nodup ∧
    (∀ e ∈ nested, Json.Exact e.2) ∧
    ∃ document text,
      (build orders ProductType.service.name "1.0.0-rc1" (Report.of [unadvised])
        nested).result = .ok document ∧
      render document = .ok text ∧ Json.parse text = .ok (toValue document) := by
  have hversion : Version.isValid "1.0.0-rc1" = true := by decide +kernel
  have hkeys : (nested.map Prod.fst).Nodup := by decide
  obtain ⟨hbuilds, hreads, -⟩ :=
    parse_documents orders .service (Report.of [unadvised]) hversion hkeys exact_nested
  obtain ⟨document, hdocument⟩ := hbuilds.mpr (by decide)
  obtain ⟨text, hwrite, hread⟩ := hreads document hdocument
  exact ⟨hversion, hkeys, exact_nested, document, text, hdocument, hwrite, hread⟩

end ProductLock.Manifest
