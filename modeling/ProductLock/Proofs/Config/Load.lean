import ProductLock.Config.Load
import ProductLock.Proofs.Outcome

namespace ProductLock.Config

open Schema

variable {v group name : Value} {entries : Entries} {path : Path} {e : Failure}
  {parse : String → Except Yaml.Stop Value} {r : Except FileFault ByteArray}

/-- A value that a group or a name can be read from. -/
def IsText (v : Value) : Prop :=
  ∃ s, partText v = .ok s

theorem partText_error : partText v = .error e ↔ e = .wrongType ∧ ¬ IsText v := by
  unfold IsText
  cases v <;> simp [partText, eq_comm]

/-- A group that is no text, or a good group and a name that is none. -/
def Untyped (group name : Value) : Prop :=
  ¬ IsText group ∨ ∃ s, partText group = .ok s ∧ isIdPart s = true ∧ ¬ IsText name

theorem idOfParts_of_untyped (h : Untyped group name) :
    idOfParts group name = .error .wrongType := by
  rcases h with hgroup | ⟨s, hgroup, hs, hname⟩
  · exact bind_error.mpr (.inl (partText_error.mpr ⟨rfl, hgroup⟩))
  · refine bind_error.mpr (.inr ⟨s, hgroup, ?_⟩)
    rw [if_neg (not_not_intro hs)]
    exact bind_error.mpr (.inl (partText_error.mpr ⟨rfl, hname⟩))

theorem idOfParts_error (h : idOfParts group name = .error e) :
    e = .wrongType ∧ Untyped group name ∨ ∃ fault, e = .id fault := by
  unfold idOfParts at h
  rcases bind_error.mp h with hgroup | ⟨s, hgroup, h⟩
  · obtain ⟨rfl, hnone⟩ := partText_error.mp hgroup
    exact .inl ⟨rfl, .inl hnone⟩
  · split at h
    · cases h
      exact .inr ⟨_, rfl⟩
    · next hs =>
      rcases bind_error.mp h with hname | ⟨t, _, h⟩
      · obtain ⟨rfl, hnone⟩ := partText_error.mp hname
        exact .inl ⟨rfl, .inr ⟨s, hgroup, not_not.mp hs, hnone⟩⟩
      · obtain ⟨fault, _, rfl⟩ := mapError_error.mp (bind_pure_error.mp h)
        exact .inr ⟨fault, rfl⟩

/-- A mapping in place of an id whose group or name cannot be looked at as a text. -/
def Mistyped (v : Value) : Prop :=
  ∃ entries, v = .map entries ∧
    Untyped (idPart "product-group" entries) (idPart "product-name" entries)

theorem readId_error (h : readId v = .error e) :
    e = .wrongType ∧ Mistyped v ∨ (∃ fault, e = .id fault) ∨ e = .digits none := by
  unfold readId at h
  split at h
  · contradiction
  · next entries =>
    rcases idOfParts_error h with ⟨rfl, hparts⟩ | hfault
    · exact .inl ⟨rfl, entries, rfl, hparts⟩
    · exact .inr (.inl hfault)
  · split at h
    · cases h
      exact .inr (.inr rfl)
    · obtain ⟨fault, _, rfl⟩ := mapError_error.mp (map_error.mp h)
      exact .inr (.inl ⟨fault, rfl⟩)

/-- A list of ids in which the first value that is no id is a mistyped mapping. -/
def Stumbling (v : Value) : Prop :=
  ∃ before w after, v = .list (before ++ w :: after) ∧ (∀ u ∈ before, ∃ id, readId u = .ok id) ∧
    Mistyped w

/-- A list of ids is read, or its issue is told, unless the reading stumbles. -/
theorem readIds_error : readIds v = .error e ↔ e = .wrongType ∧ Stumbling v := by
  constructor
  · intro h
    unfold readIds at h
    split at h
    · next vs =>
      split at h
      · contradiction
      · contradiction
      · contradiction
      · next failure hid hdigits hvs =>
        cases h
        obtain ⟨before, w, after, rfl, hbefore, hw⟩ := mapM_error.mp hvs
        rcases readId_error hw with ⟨rfl, hmistyped⟩ | ⟨fault, rfl⟩ | rfl
        · exact ⟨rfl, before, w, after, rfl, hbefore, hmistyped⟩
        · exact absurd rfl (hid fault)
        · exact absurd rfl (hdigits none)
    · contradiction
  · rintro ⟨rfl, before, w, after, rfl, hbefore, entries, rfl, hparts⟩
    have hvs : (before ++ .map entries :: after).mapM readId = .error .wrongType :=
      mapM_error.mpr ⟨before, _, after, rfl, hbefore, idOfParts_of_untyped hparts⟩
    simp only [readIds, hvs]

/-- The lists of ids, by the two names of each. -/
def idLists : List (String × String) :=
  [("ignored-product-dependencies", "ignored_product_dependencies"),
    ("optional-product-dependencies", "optional_product_dependencies"),
    ("in-repo-products", "in_repo_products")]

def StumblesOn (entries : Entries) (names : String × String) : Prop :=
  ∃ v, find names.1 names.2 entries = some v ∧ Stumbling v

theorem idsField_error {name other : String} : idsField name other entries = .error e ↔
    e = .wrongType ∧ StumblesOn entries (name, other) := by
  unfold idsField StumblesOn
  cases find name other entries with
  | none => simp
  | some v =>
    simp [map_error, readIds_error]

theorem ofValue_stumbles (h : ofValue (.map entries) = .error e) :
    e = .wrongType ∧ ∃ names ∈ idLists, StumblesOn entries names := by
  unfold ofValue at h
  rcases bind_error.mp h with hignored | ⟨_, _, h⟩
  · obtain ⟨rfl, hstumbles⟩ := idsField_error.mp hignored
    exact ⟨rfl, _, by simp [idLists], hstumbles⟩
  · rcases bind_error.mp h with hoptional | ⟨_, _, h⟩
    · obtain ⟨rfl, hstumbles⟩ := idsField_error.mp hoptional
      exact ⟨rfl, _, by simp [idLists], hstumbles⟩
    · rcases bind_error.mp h with hinRepo | ⟨_, _, h⟩
      · obtain ⟨rfl, hstumbles⟩ := idsField_error.mp hinRepo
        exact ⟨rfl, _, by simp [idLists], hstumbles⟩
      · contradiction

theorem not_stumblesOn_of_ok {name other : String} {ids : Checked (List ProductId)}
    (h : idsField name other entries = .ok ids) : ¬ StumblesOn entries (name, other) := by
  intro hstumbles
  rw [idsField_error.mpr ⟨rfl, hstumbles⟩] at h
  contradiction

/-- Before it is checked, a document can only fail by a list of ids. -/
theorem ofValue_error : ofValue (.map entries) = .error e ↔
    e = .wrongType ∧ ∃ names ∈ idLists, StumblesOn entries names := by
  constructor
  · exact ofValue_stumbles
  · rintro ⟨rfl, names, hnames, hstumbles⟩
    -- An earlier list may fail before this one, but it fails in the same way.
    cases h : ofValue (.map entries) with
    | error e => rw [(ofValue_stumbles h).1]
    | ok checked =>
      unfold ofValue at h
      obtain ⟨_, hignored, h⟩ := bind_ok.mp h
      obtain ⟨_, hoptional, h⟩ := bind_ok.mp h
      obtain ⟨_, hinRepo, h⟩ := bind_ok.mp h
      simp only [idLists, List.mem_cons, List.not_mem_nil, or_false] at hnames
      rcases hnames with rfl | rfl | rfl
      · exact absurd hstumbles (not_stumblesOn_of_ok hignored)
      · exact absurd hstumbles (not_stumblesOn_of_ok hoptional)
      · exact absurd hstumbles (not_stumblesOn_of_ok hinRepo)

/-- A mapping on which the reading of a configuration stumbles. -/
def StumblesIn (v : Value) : Prop :=
  ∃ entries, v = .map entries ∧ ∃ names ∈ idLists, StumblesOn entries names

theorem not_stumblesIn_of_isNothing (h : isNothing v = true) : ¬ StumblesIn v := by
  rintro ⟨entries, rfl, names, _, w, hw, _⟩
  cases entries with
  | nil => contradiction
  | cons entry rest => contradiction

/-- What counts as nothing is no worse than nothing. -/
theorem stumblesIn_or_empty : StumblesIn (if isNothing v then .map [] else v) ↔ StumblesIn v := by
  by_cases h : isNothing v = true
  · have hempty : ¬ StumblesIn (.map []) := not_stumblesIn_of_isNothing rfl
    simp [h, hempty, not_stumblesIn_of_isNothing h]
  · simp [h]

theorem ofDocument_error (h : ofDocument path v = .error e) :
    (∃ problem, e = .config path problem) ∨ e = .wrongType ∧ StumblesIn v := by
  unfold ofDocument at h
  rw [← stumblesIn_or_empty]
  split at h
  · next entries heq =>
    rcases bind_error.mp h with hvalue | ⟨checked, _, h⟩
    · obtain ⟨rfl, hstumbles⟩ := ofValue_error.mp hvalue
      exact .inr ⟨rfl, entries, heq, hstumbles⟩
    · cases checked with
      | ok config => contradiction
      | error issues =>
        cases h
        exact .inl ⟨_, rfl⟩
  · cases h
    exact .inl ⟨_, rfl⟩

theorem ofDocument_of_stumblesIn (h : StumblesIn v) : ofDocument path v = .error .wrongType := by
  obtain ⟨entries, heq, hstumbles⟩ := stumblesIn_or_empty.mpr h
  unfold ofDocument
  rw [heq]
  exact bind_error.mpr (.inl (ofValue_error.mpr ⟨rfl, hstumbles⟩))

/-- A file that is missing, where the way to it may lead through another file, or one that holds a
text. In the text a value is found, or it is told to be malformed. -/
inductive Legible (parse : String → Except Yaml.Stop Value) :
    Except FileFault ByteArray → Prop where
  | missing : Legible parse (.error .missing)
  | blocked : Legible parse (.error .notDirectory)
  | file (hs : Text.decode bytes = some s) (hparse : ∀ f, parse s ≠ .error (.failure f)) :
      Legible parse (.ok bytes)

/-- A file with a text in which there is a value that the reading of a configuration stumbles on. -/
def Stumbles (parse : String → Except Yaml.Stop Value) (r : Except FileFault ByteArray) : Prop :=
  ∃ bytes s v, r = .ok bytes ∧ Text.decode bytes = some s ∧ parse s = .ok v ∧ StumblesIn v

theorem loadBy_of_stumbles (h : Stumbles parse r) : loadBy parse path r = .error .wrongType := by
  obtain ⟨bytes, s, v, rfl, hs, hv, hstumbles⟩ := h
  simp only [loadBy, hs, ofParsed, hv]
  exact ofDocument_of_stumblesIn hstumbles

theorem loadBy_error (hr : Legible parse r) (hway : r ≠ .error .notDirectory)
    (h : loadBy parse path r = .error e) :
    (∃ problem, e = .config path problem) ∨ Stumbles parse r := by
  cases hr with
  | missing =>
    cases h
    exact .inl ⟨_, rfl⟩
  | blocked => contradiction
  | @file bytes s hs hparse =>
    simp only [loadBy, hs, ofParsed] at h
    split at h
    · cases h
      exact .inl ⟨_, rfl⟩
    · next f hf => exact absurd hf (hparse f)
    · next v hv =>
      rcases ofDocument_error h with hproblem | ⟨_, hstumbles⟩
      · exact .inl hproblem
      · exact .inr ⟨bytes, s, v, rfl, hs, hv, hstumbles⟩

/-- Reading a configuration gives one or tells the problem with it, unless the way to the file leads
through another file, or the reading stumbles on a group or a name in a list of ids. In these two
cases nothing is told of the file. -/
theorem loadBy_told_iff (path : Path) (hr : Legible parse r) :
    (((∃ c, loadBy parse path r = .ok c) ∨
      ∃ problem, loadBy parse path r = .error (.config path problem)) ↔
        r ≠ .error .notDirectory ∧ ¬ Stumbles parse r) ∧
    (r = .error .notDirectory → loadBy parse path r = .error (.file .notDirectory)) ∧
    (Stumbles parse r → loadBy parse path r = .error .wrongType) := by
  refine ⟨⟨?_, ?_⟩, ?_, loadBy_of_stumbles⟩
  · intro htold
    constructor
    · rintro rfl
      rcases htold with ⟨_, h⟩ | ⟨_, h⟩ <;> cases h
    · intro hstumbles
      rw [loadBy_of_stumbles hstumbles] at htold
      rcases htold with ⟨_, h⟩ | ⟨_, h⟩ <;> cases h
  · rintro ⟨hway, hnone⟩
    cases h : loadBy parse path r with
    | ok c => exact .inl ⟨c, rfl⟩
    | error e =>
      rcases loadBy_error hr hway h with ⟨problem, rfl⟩ | hstumbles
      · exact .inr ⟨problem, rfl⟩
      · exact absurd hstumbles hnone
  · rintro rfl
    rfl

/-- A configuration with a product of its workspace whose group was written as a number. -/
def misgrouped : String :=
  "product-group: a\nproduct-name: b\nproduct-version: 1.0.0\nin-repo-products:\n- product-group: 5\n"

def productFile : Path :=
  .ofString "product.yml"

theorem decode_misgrouped : Text.decode misgrouped.toUTF8 = some misgrouped := by
  decide +kernel

theorem parse_misgrouped : ∃ v, Yaml.parse misgrouped = .ok v ∧
    ∃ e, ofDocument productFile v = .error e ∧ e = .wrongType := by
  decide +kernel

theorem load_misgrouped : load productFile (.ok misgrouped.toUTF8) = .error .wrongType := by
  obtain ⟨v, hv, _, hdocument, rfl⟩ := parse_misgrouped
  simp only [load, loadBy, decode_misgrouped, ofParsed, hv, hdocument]

/-- That the group is a number is no issue of the document, and nothing is told of the file. -/
theorem misgrouped_is_untold :
    load productFile (.ok misgrouped.toUTF8) = .error .wrongType ∧
    ∀ problem, load productFile (.ok misgrouped.toUTF8) ≠ .error (.config productFile problem) := by
  refine ⟨load_misgrouped, ?_⟩
  intro problem h
  rw [load_misgrouped] at h
  cases h

/-- The file is one on which the reading stumbles. A missing one is not. -/
theorem misgrouped_stumbles :
    Stumbles Yaml.parse (.ok misgrouped.toUTF8) ∧ ¬ Stumbles Yaml.parse (.error .missing) := by
  have hparse : ∀ f, Yaml.parse misgrouped ≠ .error (.failure f) := by
    intro f h
    obtain ⟨v, hv, _⟩ := parse_misgrouped
    cases hv.symm.trans h
  constructor
  · by_contra hnone
    have htold := (loadBy_told_iff productFile (.file decode_misgrouped hparse)).1.mpr ⟨nofun, hnone⟩
    rw [← load, load_misgrouped] at htold
    rcases htold with ⟨c, h⟩ | ⟨problem, h⟩
    · cases h
    · cases h
  · exact ((loadBy_told_iff productFile .missing).1.mp (.inr ⟨.missing, rfl⟩)).2

end ProductLock.Config
