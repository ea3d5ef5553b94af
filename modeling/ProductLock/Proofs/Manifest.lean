import Mathlib.Data.List.Forall2
import ProductLock.Config.Basic
import ProductLock.Manifest
import ProductLock.Proofs.Dependency.Fields
import ProductLock.Proofs.Json.Document
import ProductLock.Proofs.Plan
import ProductLock.Proofs.Schema

namespace ProductLock

namespace Value

theorem sameKey_text (a b : String) : (text a).sameKey (text b) = (a == b) :=
  rfl

theorem lookup_put_self (name : String) (v : Value) (held : List (Value × Value)) :
    lookup name (put (.text name) v held) = some v := by
  induction held with
  | nil => simp [put, lookup, sameKey_text]
  | cons e held ih =>
    obtain ⟨k, w⟩ := e
    unfold put
    split
    · next hsame => simp [lookup, hsame]
    · next hother =>
      rw [← ih]
      simp [lookup, hother]

theorem eq_text_of_sameKey {k : Value} {s : String} (h : k.sameKey (.text s) = true) :
    k = .text s := by
  cases k with
  | text r => rw [sameKey_text, beq_iff_eq] at h; rw [h]
  | _ => simp [sameKey, asNumber?] at h

theorem lookup_put_of_ne {name other : String} (hne : other ≠ name) (v : Value)
    (held : List (Value × Value)) :
    lookup name (put (.text other) v held) = lookup name held := by
  induction held with
  | nil => simp [put, lookup, sameKey_text, hne]
  | cons e held ih =>
    obtain ⟨k, w⟩ := e
    unfold put
    split
    · next hsame =>
      rw [eq_text_of_sameKey hsame]
      simp [lookup, sameKey_text, hne]
    · simp only [lookup, List.find?_cons] at ih ⊢
      split
      · rfl
      · exact ih

end Value

namespace Json

variable {f : Failure}

theorem leafFault?_unexplained {v : Value} (h : leafFault? v = some f) : f.isExplained = false := by
  unfold leafFault? at h
  split at h
  any_goals
    cases h
    rfl
  · split at h
    · contradiction
    · cases h
      rfl
  · contradiction

mutual

/-- What keeps a value out of a document is no failure that is explained. -/
theorem fault?_unexplained (v : Value) (h : fault? v = some f) : f.isExplained = false := by
  match v with
  | .list vs =>
    rw [fault?] at h
    exact itemsFault?_unexplained vs h
  | .map es =>
    rw [fault?] at h
    exact membersFault?_unexplained es h
  | .null | .bool _ | .int _ | .double _ | .text _ | .points _ | .bytes _ | .date _ _ _ | .moment _
  | .id _ | .set _ | .again _ =>
    rw [fault?] at h
    · exact leafFault?_unexplained h
    · nofun
    · nofun

theorem itemsFault?_unexplained (vs : List Value) (h : itemsFault? vs = some f) :
    f.isExplained = false := by
  match vs with
  | [] => contradiction
  | v :: vs =>
    rw [itemsFault?, Option.or_eq_some_iff] at h
    rcases h with h | ⟨-, h⟩
    · exact fault?_unexplained v h
    · exact itemsFault?_unexplained vs h

theorem membersFault?_unexplained (es : List (Value × Value)) (h : membersFault? es = some f) :
    f.isExplained = false := by
  match es with
  | [] => contradiction
  | (k, v) :: es =>
    rw [membersFault?, Option.or_eq_some_iff, Option.or_eq_some_iff] at h
    rcases h with h | ⟨-, h | ⟨-, h⟩⟩
    · exact leafFault?_unexplained h
    · exact fault?_unexplained v h
    · exact membersFault?_unexplained es h

end

end Json

namespace Manifest

/-- What a document lists under the key of the dependencies, read as a configuration reads its
own. -/
def listed (text : String) : Option (List Dependency.Fields) :=
  match Json.parse text with
  | .ok (.map members) =>
    match Schema.required dependenciesKey dependenciesKey
        (Schema.readList (Schema.readEntry Config.dependencyRules)) members with
    | .ok fields => some fields
    | .error _ => none
  | _ => none

/-- The members of the document form are the fields of the dependency. -/
theorem exists_members (d : Dependency) : ∃ members, entry d = .map members ∧
    Schema.Spells members d.fields ∧ Schema.noExtras Schema.entryNames members = .ok () := by
  refine ⟨_, rfl, ?_⟩
  unfold Dependency.fields
  cases d.recommended <;> exact ⟨⟨rfl, rfl, rfl, rfl, rfl, .inl rfl⟩, rfl⟩

theorem readEntry_entry (d : Dependency) :
    Schema.readEntry Config.dependencyRules (entry d) = .ok d.fields := by
  obtain ⟨members, hmembers, hspells, hextras⟩ := exists_members d
  have haccepts : Config.dependencyRules.Accepts d.fields := ⟨rfl, rfl, rfl, rfl, fun _ _ => rfl⟩
  rw [hmembers]
  have hgives : Schema.Gives members d.fields :=
    (hspells.gives_iff (IdPart.ne_empty d.product.group_ok)
      (IdPart.ne_empty d.product.name_ok)).mpr rfl
  exact Schema.readEntries_ok.mpr ⟨hgives, haccepts, fun _ => hextras⟩

theorem readList_entries (r : Report) :
    Schema.readList (Schema.readEntry Config.dependencyRules) (entries r) =
      .ok (r.dependencies.map Dependency.fields) := by
  rw [entries, Schema.readList_ok, List.forall₂_map_left_iff, List.forall₂_map_right_iff,
    List.forall₂_same]
  exact fun d _ => readEntry_entry d

theorem isPlain_entry (d : Dependency) : Json.isPlain (entry d) = true := by
  unfold entry
  cases d.recommended <;> rfl

theorem isPlain_entries (r : Report) : Json.isPlain (entries r) = true := by
  rw [entries, Json.isPlain, Json.arePlain_eq_true, List.forall_mem_map]
  exact fun d _ => isPlain_entry d

/-- The last member with a name is the one that is found. -/
theorem lookup_putAll {name : String} {v : Value} {pre post : List (Value × Value)}
    (hpost : ∀ e ∈ post, ∃ other, e.1 = .text other ∧ other ≠ name) (held : List (Value × Value)) :
    Value.lookup name (Json.putAll held (pre ++ (.text name, v) :: post)) = some v := by
  have hrest (held : List (Value × Value)) :
      Value.lookup name (Json.putAll held post) = Value.lookup name held := by
    induction post generalizing held with
    | nil => rfl
    | cons e post ih =>
      obtain ⟨⟨other, hother, hne⟩, hpost⟩ := List.forall_mem_cons.mp hpost
      change Value.lookup name (Json.putAll (Value.put e.1 e.2 held) post) = _
      rw [ih hpost, hother, Value.lookup_put_of_ne hne]
  unfold Json.putAll
  rw [List.foldl_append]
  exact (hrest _).trans (Value.lookup_put_self _ _ _)

/-- The members of a document keep their names. -/
theorem names_of_faithful {document : List (String × Value)} {members : List (Value × Value)}
    (h : List.Forall₂ Json.FaithfulMember
      (document.map fun (key, v) => (Value.text key, v)) members) :
    ∀ m ∈ members, ∃ e ∈ document, m.1 = .text e.1 := by
  rw [List.forall₂_map_left_iff] at h
  induction h with
  | nil => exact fun _ hm => absurd hm List.not_mem_nil
  | @cons e m document members he _ ih =>
    intro m' hm'
    rcases List.mem_cons.mp hm' with rfl | hm'
    · exact ⟨e, List.mem_cons_self, he.text _ rfl⟩
    · obtain ⟨e', he', hkey⟩ := ih m' hm'
      exact ⟨e', List.mem_cons_of_mem e he', hkey⟩

/-- In the text of a document the dependencies are found as they are. -/
theorem listed_render {r : Report} {document : List (String × Value)}
    (pre post : List (String × Value))
    (hdocument : document = pre ++ (dependenciesKey, entries r) :: post)
    (hpost : ∀ e ∈ post, e.1 ≠ dependenciesKey)
    (hfault : Json.fault? (toValue document) = none) :
    listed (Json.render .page (toValue document) ++ "\n") =
      some (r.dependencies.map Dependency.fields) := by
  rw [toValue, Json.fault?] at hfault
  obtain ⟨members, hmembers⟩ := Json.exists_faithful_members _ hfault
  have hpage : Json.Style.page.escapeAll = true := rfl
  have hblank : ∀ c ∈ "\n".toList, Json.isSpace c = true := List.all_eq_true.mp rfl
  have hparse := Json.parse_render (Json.faithful_map hmembers) hpage hblank
  have hfound : Value.lookup dependenciesKey (Json.putAll [] members) = some (entries r) := by
    rw [hdocument, List.map_append, List.map_cons] at hmembers
    have hrest := List.forall₂_drop_append _ _ _ hmembers.flip
    obtain ⟨⟨key, found⟩, after, hmember, hafter, hsplit⟩ := List.forall₂_cons_right_iff.mp hrest
    obtain rfl : key = .text dependenciesKey := hmember.text _ rfl
    obtain rfl : found = entries r := hmember.value.plain (isPlain_entries r)
    rw [← List.take_append_drop (List.map (fun e => (Value.text e.1, e.2)) pre).length members]
    rw [hsplit]
    apply lookup_putAll
    intro m hm
    obtain ⟨e, he, hkey⟩ := names_of_faithful hafter.flip m hm
    exact ⟨e.1, hkey, hpost e he⟩
  rw [listed, toValue, hparse]
  simp [Schema.required, Schema.find, hfound, readList_entries r, Schema.under]

theorem fault?_entry (d : Dependency) : Json.fault? (entry d) = none := by
  unfold entry
  cases d.recommended <;> simp [Json.fault?, Json.membersFault?, Json.leafFault?]

theorem fault?_entries (r : Report) : Json.fault? (entries r) = none := by
  rw [entries, Json.fault?, Json.itemsFault?_eq_none, List.forall_mem_map]
  exact fun d _ => fault?_entry d

theorem listed_renderReport (r : Report) :
    listed (renderReport r) = some (r.dependencies.map Dependency.fields) := by
  apply listed_render [] [] rfl nofun
  simp [toValue, Json.fault?, Json.membersFault?, Json.leafFault?, fault?_entries]

theorem fault?_toValue {document : List (String × Value)} :
    Json.fault? (toValue document) = none ↔ ∀ e ∈ document, Json.fault? e.2 = none := by
  have hkey (s : String) : Json.leafFault? (.text s) = none := rfl
  rw [toValue, Json.fault?, Json.membersFault?_eq_none, List.forall_mem_map]
  simp only [hkey, true_and]

theorem fault?_header (product : ProductId) (type : ProductType) (version : String) (r : Report) :
    ∀ e ∈ header product type version r, Json.fault? e.2 = none := by
  have htext (s : String) : Json.fault? (.text s) = none := rfl
  simp [header, htext, fault?_entries]

/-- Leaving out what has no value leaves out no fault. -/
theorem fault?_extras {extensions : List (String × Value)} :
    (∀ e ∈ extras extensions, Json.fault? e.2 = none) ↔
      ∀ e ∈ extensions, Json.fault? e.2 = none := by
  have hmem (e : String × Value) : e ∈ Sorting.sort keyLe extensions ↔ e ∈ extensions :=
    (Sorting.sort_perm keyLe extensions).mem_iff
  constructor
  · intro h e he
    by_cases hnull : e.2 = .null
    · rw [hnull]
      rfl
    · apply h e
      apply List.mem_filter.mpr
      refine ⟨(hmem e).mpr he, ?_⟩
      cases hvalue : e.2 <;> simp_all [isNull]
  · intro h e he
    exact h e ((hmem e).mp (List.mem_filter.mp he).1)

/-- A manifest that was built has its own keys in front, and extensions with other keys after. -/
theorem build_ok {product : ProductId} {type version : String} {r : Report}
    {extensions document : List (String × Value)}
    (h : (build product type version r extensions).result = .ok document) :
    ∃ type, document = header product type version r ++ extras extensions ∧
      ∀ e ∈ extensions, e.1 ∉ reservedKeys := by
  have hrest (h : (do
      let type ← Plan.ofResult (ProductType.ofName type)
      return header product type version r ++ extras extensions : Plan _).result = .ok document) :
      ∃ type, document = header product type version r ++ extras extensions := by
    obtain ⟨type, _, hdocument⟩ := Plan.result_bind.mp h
    exact ⟨type, (Except.ok.inj hdocument).symm⟩
  unfold build at h
  split at h
  · contradiction
  · next hnone =>
    have hreserved : ∀ e ∈ extensions, e.1 ∉ reservedKeys := by
      intro e he hmem
      have hfound := List.find?_eq_none.mp (Option.eq_none_iff_forall_ne_some.mpr hnone) e.1 hmem
      exact hfound (List.any_eq_true.mpr ⟨e, he, beq_self_eq_true e.1⟩)
    split at h
    · contradiction
    · split at h
      · obtain ⟨_, _, h⟩ := Plan.result_bind.mp h
        obtain ⟨type, hdocument⟩ := hrest h
        exact ⟨type, hdocument, hreserved⟩
      · obtain ⟨type, hdocument⟩ := hrest h
        exact ⟨type, hdocument, hreserved⟩

theorem render_fault {document : List (String × Value)} {f : Failure} :
    render document = .error f ↔ Json.fault? (toValue document) = some f := by
  unfold render Json.render?
  cases Json.fault? (toValue document) <;> simp [Except.map]

/-- A manifest that was built can be written as long as every extension has a written form. -/
theorem exists_render_iff {product : ProductId} {type version : String} {r : Report}
    {extensions document : List (String × Value)}
    (hbuild : (build product type version r extensions).result = .ok document) :
    (∃ text, render document = .ok text) ↔ ∀ e ∈ extensions, Json.fault? e.2 = none := by
  obtain ⟨type, rfl, -⟩ := build_ok hbuild
  have hfault : (∃ text, render (header product type version r ++ extras extensions) = .ok text) ↔
      Json.fault? (toValue (header product type version r ++ extras extensions)) = none := by
    unfold render Json.render?
    cases Json.fault? (toValue (header product type version r ++ extras extensions)) <;>
      simp [Except.map]
  rw [hfault, fault?_toValue, List.forall_mem_append, fault?_extras]
  exact and_iff_right (fault?_header product type version r)

theorem listed_of_build {product : ProductId} {type version text : String} {r : Report}
    {extensions document : List (String × Value)}
    (hbuild : (build product type version r extensions).result = .ok document)
    (hrender : render document = .ok text) :
    listed text = some (r.dependencies.map Dependency.fields) := by
  obtain ⟨type, rfl, hreserved⟩ := build_ok hbuild
  have hpost : ∀ e ∈ extras extensions, e.1 ≠ dependenciesKey := by
    intro e he heq
    have hmem : e ∈ extensions :=
      (Sorting.sort_perm keyLe extensions).mem_iff.mp (List.mem_filter.mp he).1
    exact hreserved e hmem (by rw [heq]; decide)
  unfold render Json.render? at hrender
  split at hrender
  · contradiction
  · next hfault =>
    rw [← Except.ok.inj hrender]
    exact listed_render ((header product type version r).take 5) _ rfl hpost hfault

end Manifest

end ProductLock
