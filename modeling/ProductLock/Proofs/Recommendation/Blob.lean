import Mathlib.Data.Set.List
import ProductLock.Proofs.Dependency.Fields
import ProductLock.Proofs.Plan
import ProductLock.Proofs.Schema
import ProductLock.Recommendation

namespace ProductLock.Recommendation

open Schema

theorem accepts_iff {f : Dependency.Fields} : entryRules.Accepts f ↔
    isIdPart f.group = true ∧ isIdPart f.name = true ∧ Version.isOrderable f.minimum = true ∧
      isMergeableMaximum f.maximum = true ∧
      ∀ v, f.recommended = some v → Version.isOrderable v = true := by
  have hnone {b : Bool} {reason : Reason} : (if b = true then none else some reason) = none ↔
      b = true := by
    cases b <;> simp
  constructor
  · intro h
    exact ⟨hnone.mp h.group, hnone.mp h.name, hnone.mp h.minimum, hnone.mp h.maximum,
      fun v hv => hnone.mp (h.recommended v hv)⟩
  · intro h
    obtain ⟨hg, hn, hl, hu, hr⟩ := h
    exact ⟨hnone.mpr hg, hnone.mpr hn, hnone.mpr hl, hnone.mpr hu, fun v hv => hnone.mpr (hr v hv)⟩

/-- What is accepted as an entry is a dependency: nothing that is checked later can fail. -/
theorem exists_of_accepts {f : Dependency.Fields} (h : entryRules.Accepts f) :
    ∃ d : Dependency, d.fields = f := by
  obtain ⟨hg, hn, hl, hu, hr⟩ := accepts_iff.mp h
  have hvalid {s : String} (hs : Version.isOrderable s = true) : Version.isValid s = true :=
    Bool.or_eq_true_iff.mpr (.inl hs)
  have hmaximum : Version.isValidOrMatcher f.maximum = true := by
    rcases Bool.or_eq_true_iff.mp hu with hu | hu
    · exact Bool.or_eq_true_iff.mpr (.inl (hvalid hu))
    · exact Bool.or_eq_true_iff.mpr (.inr hu)
  exact ⟨⟨⟨f.group, f.name, hg, hn⟩, f.minimum, f.maximum, f.recommended, f.optional, hvalid hl,
    hmaximum, fun v hv => hvalid (hr v hv)⟩, rfl⟩

/-- An entry is read as the fields that it gives, if they are accepted. -/
theorem readEntry_ok {v : Value} {f : Dependency.Fields} : readEntry entryRules v = .ok f ↔
    (∃ members, v = .map members ∧ Gives members f) ∧ entryRules.Accepts f := by
  have hopen : entryRules.closed ≠ true := Bool.false_ne_true
  cases v with
  | map members =>
    rw [readEntry, readEntries_ok]
    constructor
    · rintro ⟨hgives, haccepts, _⟩
      exact ⟨⟨members, rfl, hgives⟩, haccepts⟩
    · rintro ⟨⟨_, ⟨⟩, hgives⟩, haccepts⟩
      exact ⟨hgives, haccepts, fun hclosed => absurd hclosed hopen⟩
  | _ =>
    constructor
    · intro h
      contradiction
    · rintro ⟨⟨_, hmap, _⟩, _⟩
      contradiction

/-- A document is read as the list that it has in its place, if all entries can be read. -/
theorem readDocument_ok {v : Value} {fs : List Dependency.Fields} : readDocument v = .ok fs ↔
    ∃ entries items, v = .map entries ∧
      find listKey "recommended_product_dependencies" entries = some (.list items) ∧
      List.Forall₂ (fun item f => readEntry entryRules item = .ok f) items fs := by
  cases v with
  | map entries =>
    rw [readDocument, required_ok]
    constructor
    · rintro ⟨listed, hfind, hread⟩
      cases listed with
      | list items => exact ⟨entries, items, rfl, hfind, readList_ok.mp hread⟩
      | _ => contradiction
    · rintro ⟨_, items, ⟨⟩, hfind, hitems⟩
      exact ⟨_, hfind, readList_ok.mpr hitems⟩
  | _ =>
    constructor
    · intro h
      contradiction
    · rintro ⟨_, _, hmap, _⟩
      contradiction

theorem readBlob_text_ok {s : String} {fs : List Dependency.Fields} :
    readBlob (.text s) = .ok (.ok fs) ↔ ∃ v, Json.parse s = .ok v ∧ readDocument v = .ok fs := by
  rw [readBlob]
  split
  · next h => simp [h]
  · next h => simp [h]
  · next v h => simp [h, mapError_ok]

theorem accepts_of_readBlob {b : Blob} {fs : List Dependency.Fields}
    (h : readBlob b = .ok (.ok fs)) : ∀ f ∈ fs, entryRules.Accepts f := by
  cases b with
  | text s =>
    obtain ⟨v, _, hv⟩ := readBlob_text_ok.mp h
    obtain ⟨_, _, _, _, hitems⟩ := readDocument_ok.mp hv
    intro f hf
    obtain ⟨item, hitem⟩ := forall₂_left hitems.flip f hf
    exact (readEntry_ok.mp hitem).2
  | other => cases h

theorem exists_dependencies {b : Blob} {fs : List Dependency.Fields}
    (h : readBlob b = .ok (.ok fs)) : ∃ ds : List Dependency, ds.map Dependency.fields = fs := by
  have hmem : fs ∈ Set.range (List.map Dependency.fields) := by
    rw [Set.range_list_map]
    exact fun f hf => exists_of_accepts (accepts_of_readBlob h f hf)
  exact hmem

/-- What an artifact contributes: the records of its blob, and nothing if it has no blob or one that
cannot be used. -/
inductive Contributes : Option Blob → List Dependency → Prop where
  | absent : Contributes none []
  | unusable (h : readBlob b = .ok (.error fault)) : Contributes (some b) []
  | usable (h : readBlob b = .ok (.ok (ds.map Dependency.fields))) : Contributes (some b) ds

theorem announce_ok {source : Option String} {fs : List Dependency.Fields} {ds : List Dependency} :
    (announce source fs).result = .ok ds ↔ ds.map Dependency.fields = fs := by
  induction fs generalizing ds with
  | nil =>
    rw [List.map_eq_nil_iff]
    exact ⟨fun h => (Except.ok.inj h).symm, fun h => h ▸ rfl⟩
  | cons f fs ih =>
    rw [announce, Plan.result_bind]
    simp only [Plan.result_bind]
    constructor
    · intro h
      obtain ⟨d, hd, _, _, ds, hds, h⟩ := h
      cases h
      rw [List.map_cons, ih.mp hds, Dependency.Fields.check_ok.mp hd]
    · intro h
      cases ds with
      | nil => contradiction
      | cons d ds =>
        obtain ⟨hd, hds⟩ := List.cons.inj h
        exact ⟨d, Dependency.Fields.check_ok.mpr hd, (), rfl, ds, ih.mpr hds, rfl⟩

theorem readBlob_error {b : Blob} {f : Failure} : readBlob b = .error f ↔
    ∃ s n, b = .text s ∧ Json.parse s = .error (.digits n) ∧ f = .digits (some n) := by
  unfold readBlob
  split
  · simp
  · next s =>
    split
    · next n h => simp [h, eq_comm]
    · next h => simp [h]
    · next h => simp [h]

theorem parse_ok {source : Option String} {b : Blob} {ds : List Dependency} :
    (parse source b).result = .ok ds ↔ Contributes (some b) ds := by
  rw [parse, Plan.result_bind]
  constructor
  · intro h
    obtain ⟨outcome, hblob, h⟩ := h
    cases outcome with
    | error fault =>
      obtain ⟨_, _, h⟩ := Plan.result_bind.mp h
      cases h
      exact .unusable hblob
    | ok fields =>
      obtain rfl := announce_ok.mp h
      exact .usable hblob
  · intro h
    cases h with
    | unusable hblob => exact ⟨_, hblob, Plan.result_bind.mpr ⟨(), rfl, rfl⟩⟩
    | usable hblob => exact ⟨_, hblob, announce_ok.mpr rfl⟩

theorem parse_error {source : Option String} {b : Blob} {f : Failure} :
    (parse source b).result = .error f ↔ readBlob b = .error f := by
  rw [parse, Plan.result_bind_error]
  constructor
  · intro h
    rcases h with hblob | ⟨outcome, hblob, h⟩
    · exact hblob
    · cases outcome with
      | error fault =>
        rcases Plan.result_bind_error.mp h with h | ⟨_, _, h⟩ <;> cases h
      | ok fields =>
        obtain ⟨ds, hds⟩ := exists_dependencies hblob
        rw [announce_ok.mpr hds] at h
        contradiction
  · exact .inl

theorem Contributes.readable {s : String} {ds : List Dependency} {n : Nat}
    (h : Contributes (some (.text s)) ds) : Json.parse s ≠ .error (.digits n) := by
  intro hn
  have herror := readBlob_error.mpr ⟨s, n, rfl, hn, rfl⟩
  cases h with
  | unusable hblob => cases herror.symm.trans hblob
  | usable hblob => cases herror.symm.trans hblob

end ProductLock.Recommendation
