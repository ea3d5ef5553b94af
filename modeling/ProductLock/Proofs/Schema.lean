import ProductLock.Proofs.Outcome
import ProductLock.Schema.Entry

namespace ProductLock.Schema

variable {α β : Type} {read : Value → Checked α} {name other : String} {entries : Entries}

theorem both_ok {x : Checked α} {y : Checked β} {p : α × β} :
    both x y = .ok p ↔ x = .ok p.1 ∧ y = .ok p.2 := by
  cases x <;> cases y <;> simp [both, Prod.ext_iff]

theorem under_ok {s : Segment} {x : Checked α} {a : α} : under s x = .ok a ↔ x = .ok a := by
  cases x <;> simp [under]

theorem refuse_ok {c : Complaint} {a : α} : refuse c = .ok a ↔ False := by
  simp [refuse]

theorem readItemsFrom_ok {i : Nat} {vs : List Value} {as : List α} :
    readItemsFrom read i vs = .ok as ↔ List.Forall₂ (fun v a => read v = .ok a) vs as := by
  induction vs generalizing i as with
  | nil => simp [readItemsFrom, eq_comm]
  | cons v vs ih =>
    rw [readItemsFrom, List.forall₂_cons_left_iff]
    refine map_ok.trans ?_
    simp only [both_ok, under_ok, ih]
    constructor
    · intro h
      obtain ⟨⟨a, rest⟩, ⟨ha, hrest⟩, rfl⟩ := h
      exact ⟨a, rest, ha, hrest, rfl⟩
    · intro h
      obtain ⟨a, rest, ha, hrest, rfl⟩ := h
      exact ⟨(a, rest), ⟨ha, hrest⟩, rfl⟩

/-- A list is read if each of its items is. -/
theorem readList_ok {vs : List Value} {as : List α} :
    readList read (.list vs) = .ok as ↔ List.Forall₂ (fun v a => read v = .ok a) vs as :=
  readItemsFrom_ok

theorem required_ok {a : α} : required name other read entries = .ok a ↔
    ∃ v, find name other entries = some v ∧ read v = .ok a := by
  rw [required, under_ok]
  cases find name other entries <;> simp [refuse_ok]

theorem defaulted_ok {a default : α} : defaulted name other default read entries = .ok a ↔
    (find name other entries = none ∧ default = a) ∨
      ∃ v, find name other entries = some v ∧ read v = .ok a := by
  rw [defaulted]
  cases find name other entries <;> simp [under_ok]

theorem readSomeText_ok {s t : String} : readSomeText (.text s) = .ok t ↔ s ≠ "" ∧ s = t := by
  by_cases hs : s = "" <;> simp [readSomeText, readText, bind, Except.bind, hs, refuse, pure,
    Except.pure]

theorem checkText_ok {reason? : String → Option Reason} {s t : String} :
    checkText reason? s = .ok t ↔ s = t ∧ reason? s = none := by
  rw [checkText]
  cases reason? s <;> simp [refuse_ok]

/-- A further check only looks at the text that was read. -/
theorem bind_checkText_ok {x : Checked String} {reason? : String → Option Reason} {t : String} :
    x >>= checkText reason? = .ok t ↔ x = .ok t ∧ reason? t = none := by
  simp only [bind_ok, checkText_ok]
  constructor
  · intro h
    obtain ⟨_, hx, rfl, hs⟩ := h
    exact ⟨hx, hs⟩
  · intro h
    exact ⟨t, h.1, rfl, h.2⟩

theorem required_checkText_ok {read : Value → Checked String} {reason? : String → Option Reason}
    {t : String} : required name other (fun v => read v >>= checkText reason?) entries = .ok t ↔
      required name other read entries = .ok t ∧ reason? t = none := by
  simp only [required_ok, bind_checkText_ok]
  constructor
  · intro h
    obtain ⟨v, hv, hread, ht⟩ := h
    exact ⟨⟨v, hv, hread⟩, ht⟩
  · intro h
    obtain ⟨⟨v, hv, hread⟩, ht⟩ := h
    exact ⟨v, hv, hread, ht⟩

theorem readRecommended_ok {reason? : String → Option Reason} {v : Value} {r : Option String} :
    readRecommended reason? v = .ok r ↔
      readTextOrNull v = .ok r ∧ ∀ s, r = some s → reason? s = none := by
  unfold readRecommended
  rw [bind_ok]
  constructor
  · intro h
    obtain ⟨r', hread, h⟩ := h
    cases r' with
    | none =>
      cases h
      exact ⟨hread, nofun⟩
    | some s =>
      obtain ⟨t, ht, h⟩ := bind_ok.mp h
      obtain ⟨rfl, hs⟩ := checkText_ok.mp ht
      cases h
      exact ⟨hread, fun s' hs' => Option.some.inj hs' ▸ hs⟩
  · intro h
    obtain ⟨hread, hr⟩ := h
    refine ⟨r, hread, ?_⟩
    cases r with
    | none => rfl
    | some s => exact bind_ok.mpr ⟨s, checkText_ok.mpr ⟨rfl, hr s rfl⟩, rfl⟩

theorem defaulted_readRecommended_ok {reason? : String → Option Reason} {r : Option String} :
    defaulted name other none (readRecommended reason?) entries = .ok r ↔
      defaulted name other none readTextOrNull entries = .ok r ∧
        ∀ s, r = some s → reason? s = none := by
  simp only [defaulted_ok, readRecommended_ok]
  constructor
  · intro h
    rcases h with ⟨hnone, rfl⟩ | ⟨v, hv, hread, hr⟩
    · exact ⟨.inl ⟨hnone, rfl⟩, nofun⟩
    · exact ⟨.inr ⟨v, hv, hread⟩, hr⟩
  · intro h
    obtain ⟨⟨hnone, rfl⟩ | ⟨v, hv, hread⟩, hr⟩ := h
    · exact .inl ⟨hnone, rfl⟩
    · exact .inr ⟨v, hv, hread, hr⟩

/-- None of the rules speaks against the fields. -/
structure EntryRules.Accepts (rules : EntryRules) (f : Dependency.Fields) : Prop where
  group : rules.part f.group = none
  name : rules.part f.name = none
  minimum : rules.minimum f.minimum = none
  maximum : rules.maximum f.maximum = none
  recommended : ∀ v, f.recommended = some v → rules.recommended v = none

/-- The fields that an entry gives, before any rules are asked. -/
structure Gives (entries : Entries) (f : Dependency.Fields) : Prop where
  group : required "product-group" "product_group" readSomeText entries = .ok f.group
  name : required "product-name" "product_name" readSomeText entries = .ok f.name
  minimum : required "minimum-version" "minimum_version" readText entries = .ok f.minimum
  maximum : required "maximum-version" "maximum_version" readText entries = .ok f.maximum
  recommended : defaulted "recommended-version" "recommended_version" none readTextOrNull entries =
    .ok f.recommended
  optional : defaulted "optional" "optional" false readBool entries = .ok f.optional

/-- An entry is read as the fields that it gives, if the rules accept them. -/
theorem readEntries_ok {rules : EntryRules} {f : Dependency.Fields} :
    readEntries rules entries = .ok f ↔ Gives entries f ∧ rules.Accepts f ∧
      (rules.closed = true → noExtras entryNames entries = .ok ()) := by
  have hextras {u : Unit} : (if rules.closed = true then noExtras entryNames entries else .ok ()) =
      .ok u ↔ (rules.closed = true → noExtras entryNames entries = .ok ()) := by
    split <;> simp_all
  simp only [readEntries, bind_ok, both_ok, Prod.exists, required_checkText_ok,
    defaulted_readRecommended_ok, hextras, pure_ok, Except.ok.injEq]
  constructor
  · intro h
    obtain ⟨group, name, minimum, maximum, recommended, optional, _, h, rfl⟩ := h
    obtain ⟨⟨hg, hgr⟩, ⟨hn, hnr⟩, ⟨hl, hlr⟩, ⟨hu, hur⟩, ⟨hr, hrr⟩, ho, hx⟩ := h
    exact ⟨⟨hg, hn, hl, hu, hr, ho⟩, ⟨hgr, hnr, hlr, hur, hrr⟩, hx⟩
  · intro h
    obtain ⟨hgives, haccepts, hx⟩ := h
    exact ⟨_, _, _, _, _, _, (), ⟨⟨hgives.group, haccepts.group⟩, ⟨hgives.name, haccepts.name⟩,
      ⟨hgives.minimum, haccepts.minimum⟩, ⟨hgives.maximum, haccepts.maximum⟩,
      ⟨hgives.recommended, haccepts.recommended⟩, hgives.optional, hx⟩, rfl⟩

/-- The members of an entry are these fields, in whatever order and with others or without. A field
that is absent stands for its default. -/
structure Spells (entries : Entries) (f : Dependency.Fields) : Prop where
  group : find "product-group" "product_group" entries = some (.text f.group)
  name : find "product-name" "product_name" entries = some (.text f.name)
  minimum : find "minimum-version" "minimum_version" entries = some (.text f.minimum)
  maximum : find "maximum-version" "maximum_version" entries = some (.text f.maximum)
  recommended : find "recommended-version" "recommended_version" entries =
    f.recommended.map Value.text
  optional : find "optional" "optional" entries = some (.bool f.optional) ∨
    find "optional" "optional" entries = none ∧ f.optional = false

theorem Spells.gives_iff {f g : Dependency.Fields} (h : Spells entries f) (hgroup : f.group ≠ "")
    (hname : f.name ≠ "") : Gives entries g ↔ g = f := by
  have hoptional {b : Bool} :
      defaulted "optional" "optional" false readBool entries = .ok b ↔ f.optional = b := by
    rcases h.optional with hsome | ⟨hnone, hfalse⟩
    · simp [defaulted_ok, hsome, readBool]
    · simp [defaulted_ok, hnone, hfalse]
  have hrecommended {r : Option String} : defaulted "recommended-version" "recommended_version" none
      readTextOrNull entries = .ok r ↔ f.recommended = r := by
    rw [defaulted_ok, h.recommended]
    cases f.recommended <;> simp [readTextOrNull, readText, Functor.map, Except.map]
  constructor
  · intro hg
    have hgroup := hg.group
    have hname := hg.name
    have hminimum := hg.minimum
    have hmaximum := hg.maximum
    simp only [required_ok, h.group, h.name, h.minimum, h.maximum, Option.some.injEq,
      exists_eq_left', readSomeText_ok, readText, Except.ok.injEq] at hgroup hname hminimum hmaximum
    have hr := hrecommended.mp hg.recommended
    have ho := hoptional.mp hg.optional
    cases f
    cases g
    simp_all
  · intro hg
    subst hg
    refine ⟨?_, ?_, ?_, ?_, hrecommended.mpr rfl, hoptional.mpr rfl⟩
    · exact required_ok.mpr ⟨_, h.group, readSomeText_ok.mpr ⟨hgroup, rfl⟩⟩
    · exact required_ok.mpr ⟨_, h.name, readSomeText_ok.mpr ⟨hname, rfl⟩⟩
    · exact required_ok.mpr ⟨_, h.minimum, rfl⟩
    · exact required_ok.mpr ⟨_, h.maximum, rfl⟩

end ProductLock.Schema
