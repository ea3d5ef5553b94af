import ProductLock.Proofs.Dependency.Fields
import ProductLock.Proofs.Text.Blank

namespace ProductLock.ProductId

variable {s left right group name group' name' : String}

/-- What can be a group or a name: not empty, and without blanks and the marks of a lockfile line. -/
def IsPart (part : String) : Prop :=
  part ≠ "" ∧ ∀ c ∈ part.toList, Text.isBlank c = false ∧ c ∉ [':', '(', ')', ',']

theorem isPart_iff {part : String} : IsPart part ↔ isIdPart part = true := by
  simp [IsPart, isIdPart, isIdChar, and_assoc]

/-- What is wrong with a group and a name: the group is looked at first. -/
inductive Rejected (group name : String) : IdField → String → Prop
  | group (h : ¬ IsPart group) : Rejected group name .group group
  | name (h : IsPart group) (h' : ¬ IsPart name) : Rejected group name .name name

theorem ofParts_error {fault : IdFault} : ofParts group name = .error fault ↔
    ∃ field value, fault = .part field value ∧ Rejected group name field value := by
  unfold ofParts
  constructor
  · intro h
    split at h
    · next hg =>
      split at h
      · contradiction
      · next hn =>
        cases h
        exact ⟨_, _, rfl, .name (isPart_iff.mpr hg) (mt isPart_iff.mp hn)⟩
    · next hg =>
      cases h
      exact ⟨_, _, rfl, .group (mt isPart_iff.mp hg)⟩
  · rintro ⟨field, value, rfl, hrejected⟩
    cases hrejected with
    | group hg => rw [dif_neg (mt isPart_iff.mpr hg)]
    | name hg hn => rw [dif_pos (isPart_iff.mp hg), dif_neg (mt isPart_iff.mpr hn)]

/-- A text with one colon, and what stands before and after it. -/
structure Halves (s left right : String) : Prop where
  text_eq : s = left ++ ":" ++ right
  left_whole : ':' ∉ left.toList
  right_whole : ':' ∉ right.toList

theorem halves_iff :
    Halves s left right ↔ Text.pieces ':' s.toList = [left.toList, right.toList] := by
  rw [Text.pieces_pair]
  constructor
  · rintro ⟨rfl, hleft, hright⟩
    exact ⟨by simp, hleft, hright⟩
  · rintro ⟨hs, hleft, hright⟩
    exact ⟨by simp [← String.toList_inj, hs], hleft, hright⟩

/-- A text with one colon, and its halves without the blanks around them. -/
def Halved (s group name : String) : Prop :=
  ∃ left right, Halves s left right ∧ Text.Stripped left group ∧ Text.Stripped right name

theorem Halved.unique (h : Halved s group name) (h' : Halved s group' name') :
    group' = group ∧ name' = name := by
  obtain ⟨left, right, hhalves, hleft, hright⟩ := h
  obtain ⟨left', right', hhalves', hleft', hright'⟩ := h'
  have hpieces := (halves_iff.mp hhalves).symm.trans (halves_iff.mp hhalves')
  simp only [List.cons.injEq, and_true, String.toList_inj] at hpieces
  obtain ⟨rfl, rfl⟩ := hpieces
  rw [← Text.trim_eq_iff] at hleft hright hleft' hright'
  exact ⟨hleft'.symm.trans hleft, hright'.symm.trans hright⟩

/-- A half that is blank makes no id, and neither is looked at further. -/
theorem parse_of_halved (h : Halved s group name) : parse s =
    if group = "" ∨ name = "" then .error (.malformed s) else ofParts group name := by
  obtain ⟨left, right, hhalves, hleft, hright⟩ := h
  have hblank {half core : String} (hcore : Text.Stripped half core) :
      half.toList.all Text.isBlank = true ↔ core = "" := by
    change Text.allBlank half = true ↔ _
    rw [Text.allBlank_iff_stripped, ← Text.trim_eq_iff, Text.trim_eq_iff.mpr hcore]
  have htrim {half core : String} (hcore : Text.Stripped half core) :
      String.ofList (Text.trimChars half.toList) = core :=
    Text.trim_eq_iff.mpr hcore
  rw [parse, halves_iff.mp hhalves]
  simp only [htrim hleft, htrim hright, Bool.or_eq_true, hblank hleft, hblank hright]

theorem parse_of_not_halved (h : ∀ group name, ¬ Halved s group name) :
    parse s = .error (.malformed s) := by
  unfold parse
  split
  · next left right hpieces =>
    have hhalves : Halves s (String.ofList left) (String.ofList right) := by
      rw [halves_iff, String.toList_ofList, String.toList_ofList, hpieces]
    exact absurd ⟨_, _, hhalves, .trim _, .trim _⟩ (h _ _)
  · rfl

/-- What can come of reading an id. -/
theorem parse_cases (s : String) : (∃ group name, Halved s group name ∧ group ≠ "" ∧ name ≠ "" ∧
    parse s = ofParts group name) ∨
    (¬ (∃ group name, Halved s group name ∧ group ≠ "" ∧ name ≠ "") ∧
      parse s = .error (.malformed s)) := by
  by_cases h : ∃ group name, Halved s group name
  · obtain ⟨group, name, hhalved⟩ := h
    have hparse := parse_of_halved hhalved
    split at hparse
    · next hempty =>
      refine .inr ⟨?_, hparse⟩
      rintro ⟨group', name', hhalved', hgroup, hname⟩
      obtain ⟨rfl, rfl⟩ := hhalved.unique hhalved'
      exact hempty.elim hgroup hname
    · next hfull =>
      rw [not_or] at hfull
      exact .inl ⟨group, name, hhalved, hfull.1, hfull.2, hparse⟩
  · simp only [not_exists] at h
    exact .inr ⟨fun ⟨group, name, hhalved, _⟩ => h group name hhalved, parse_of_not_halved h⟩

theorem parse_ok {id : ProductId} : parse s = .ok id ↔ Halved s id.group id.name := by
  constructor
  · intro h
    rcases parse_cases s with ⟨group, name, hhalved, -, -, hparse⟩ | ⟨-, hparse⟩
    · obtain ⟨rfl, rfl⟩ := ofParts_ok.mp (hparse.symm.trans h)
      exact hhalved
    · cases hparse.symm.trans h
  · intro h
    have hfull : ¬ (id.group = "" ∨ id.name = "") := by
      rw [not_or]
      exact ⟨IdPart.ne_empty id.group_ok, IdPart.ne_empty id.name_ok⟩
    rw [parse_of_halved h, if_neg hfull]
    exact ofParts_ok.mpr ⟨rfl, rfl⟩

/-- Nothing has to be taken off a part. -/
theorem IsPart.stripped {part : String} (h : IsPart part) : Text.Stripped part part where
  padded := ⟨"", "", by simp, rfl, rfl⟩
  front c hc := (h.2 c (List.mem_of_mem_head? hc)).1
  back c hc := (h.2 c (List.mem_of_getLast? hc)).1

theorem IsPart.whole {part : String} (h : IsPart part) : ':' ∉ part.toList :=
  fun hmem => (h.2 ':' hmem).2 List.mem_cons_self

/-- The text of an id is read as the id. -/
theorem parse_text (id : ProductId) : parse id.text = .ok id := by
  have hgroup : IsPart id.group := isPart_iff.mpr id.group_ok
  have hname : IsPart id.name := isPart_iff.mpr id.name_ok
  exact parse_ok.mpr ⟨id.group, id.name, ⟨rfl, hgroup.whole, hname.whole⟩, hgroup.stripped,
    hname.stripped⟩

/-- Exactly the ids with blanks around their halves are read as ids. Of the other texts, those with
one colon and something before and after it are refused for a part, and the rest for their form. -/
theorem parse_padded (s : String) :
    (∀ id, parse s = .ok id ↔ Halved s id.group id.name) ∧
    ((∃ id, parse s = .ok id) ↔ ∃ group name, Halved s group name ∧ IsPart group ∧ IsPart name) ∧
    (∀ field value, parse s = .error (.part field value) ↔ ∃ group name, Halved s group name ∧
      group ≠ "" ∧ name ≠ "" ∧ Rejected group name field value) ∧
    (∀ text, parse s = .error (.malformed text) ↔
      text = s ∧ ¬ ∃ group name, Halved s group name ∧ group ≠ "" ∧ name ≠ "") ∧
    ∀ id : ProductId, parse id.text = .ok id := by
  refine ⟨fun id => parse_ok, ?_, ?_, ?_, parse_text⟩
  · constructor
    · rintro ⟨id, h⟩
      exact ⟨id.group, id.name, parse_ok.mp h, isPart_iff.mpr id.group_ok,
        isPart_iff.mpr id.name_ok⟩
    · rintro ⟨group, name, hhalved, hgroup, hname⟩
      exact ⟨⟨group, name, isPart_iff.mp hgroup, isPart_iff.mp hname⟩, parse_ok.mpr hhalved⟩
  · intro field value
    constructor
    · intro h
      rcases parse_cases s with ⟨group, name, hhalved, hgroup, hname, hparse⟩ | ⟨-, hparse⟩
      · obtain ⟨_, _, ⟨⟩, hrejected⟩ := ofParts_error.mp (hparse.symm.trans h)
        exact ⟨group, name, hhalved, hgroup, hname, hrejected⟩
      · cases hparse.symm.trans h
    · rintro ⟨group, name, hhalved, hgroup, hname, hrejected⟩
      rw [parse_of_halved hhalved, if_neg (not_or.mpr ⟨hgroup, hname⟩)]
      exact ofParts_error.mpr ⟨field, value, rfl, hrejected⟩
  · intro text
    constructor
    · intro h
      rcases parse_cases s with ⟨group, name, -, -, -, hparse⟩ | ⟨hnone, hparse⟩
      · obtain ⟨_, _, ⟨⟩, -⟩ := ofParts_error.mp (hparse.symm.trans h)
      · cases hparse.symm.trans h
        exact ⟨rfl, hnone⟩
    · rintro ⟨rfl, hnone⟩
      rcases parse_cases text with ⟨group, name, hhalved, hgroup, hname, -⟩ | ⟨-, hparse⟩
      · exact absurd ⟨group, name, hhalved, hgroup, hname⟩ hnone
      · exact hparse

example : parse " com.example :\tlib\n" =
    .ok ⟨"com.example", "lib", by decide, by decide⟩ := by decide +kernel

end ProductLock.ProductId
