import Mathlib.Order.MinMax
import Mathlib.Order.WithBot
import ProductLock.Dependency.Merge
import ProductLock.Proofs.Version.Limit

namespace ProductLock

open Version

/-- What a dependency asks for: a window of versions and, unless it is the bottom, a preference. -/
structure Terms where
  lowest : Bound
  highest : Bound
  preferred : WithBot Bound

namespace Terms

/-- A preference outside the window counts as none. -/
def clip (lowest highest : Bound) (p : WithBot Bound) : WithBot Bound :=
  if lowest ≤ p ∧ p ≤ highest then p else ⊥

/-- The terms that satisfy both. -/
def meet (s t : Terms) : Terms :=
  let lowest := max s.lowest t.lowest
  let highest := min s.highest t.highest
  ⟨lowest, highest, max (clip lowest highest s.preferred) (clip lowest highest t.preferred)⟩

/-- Some version lies in the window, and a preference is such a version. -/
structure Sound (t : Terms) : Prop where
  window : t.lowest ≤ t.highest
  preferred : ∀ b : Bound, t.preferred = b → t.lowest ≤ b ∧ b ≤ t.highest

theorem clip_of_mem {l h b : Bound} (hl : l ≤ b) (hh : b ≤ h) : clip l h b = b :=
  if_pos ⟨WithBot.coe_le_coe.mpr hl, WithBot.coe_le_coe.mpr hh⟩

theorem clip_eq_coe {l h b : Bound} {p : WithBot Bound} :
    clip l h p = b ↔ p = b ∧ l ≤ b ∧ b ≤ h := by
  constructor
  · intro hc
    unfold clip at hc
    split at hc
    · next hw =>
      subst hc
      exact ⟨rfl, WithBot.coe_le_coe.mp hw.1, WithBot.coe_le_coe.mp hw.2⟩
    · exact absurd hc.symm (WithBot.coe_ne_bot)
  · intro hx
    obtain ⟨rfl, hl, hh⟩ := hx
    exact clip_of_mem hl hh

theorem meet_preferred (s t : Terms) : (s.meet t).preferred =
    max (clip (s.meet t).lowest (s.meet t).highest s.preferred)
      (clip (s.meet t).lowest (s.meet t).highest t.preferred) :=
  rfl

theorem meet_comm (s t : Terms) : s.meet t = t.meet s := by
  simp only [meet, max_comm, min_comm]

/-- A preference that the window of both leaves open comes out, or gives way to a higher one. -/
theorem le_meet_preferred {s t : Terms} {b : Bound} (hp : s.preferred = b ∨ t.preferred = b)
    (hl : (s.meet t).lowest ≤ b) (hh : b ≤ (s.meet t).highest) : b ≤ (s.meet t).preferred := by
  rw [meet_preferred, le_max_iff]
  rcases hp with hp | hp
  · left
    rw [hp, clip_of_mem hl hh]
  · right
    rw [hp, clip_of_mem hl hh]

/-- What both terms together prefer was preferred by one of them and lies in the window. -/
theorem of_meet_preferred {s t : Terms} {b : Bound} (h : (s.meet t).preferred = b) :
    (s.preferred = b ∨ t.preferred = b) ∧ (s.meet t).lowest ≤ b ∧ b ≤ (s.meet t).highest := by
  rw [meet_preferred] at h
  rcases max_choice (clip (s.meet t).lowest (s.meet t).highest s.preferred)
    (clip (s.meet t).lowest (s.meet t).highest t.preferred) with hm | hm <;>
    rw [hm, clip_eq_coe] at h
  · exact ⟨.inl h.1, h.2⟩
  · exact ⟨.inr h.1, h.2⟩

theorem meet_sound {s t : Terms} (h : max s.lowest t.lowest ≤ min s.highest t.highest) :
    (s.meet t).Sound :=
  ⟨h, fun _ hb => (of_meet_preferred hb).2⟩

theorem clip_eq_self {l h : Bound} {p : WithBot Bound}
    (hp : ∀ b : Bound, p = b → l ≤ b ∧ b ≤ h) : clip l h p = p := by
  cases p with
  | bot => exact ite_self ⊥
  | coe b => exact clip_of_mem (hp b rfl).1 (hp b rfl).2

theorem meet_self {t : Terms} (h : t.Sound) : t.meet t = t := by
  have hclip : clip t.lowest t.highest t.preferred = t.preferred := clip_eq_self h.preferred
  simp [meet, hclip]

/-- Terms that have been satisfied once ask for nothing more. -/
theorem meet_meet (s t : Terms) : (s.meet t).meet t = s.meet t := by
  have hlowest : max (s.meet t).lowest t.lowest = (s.meet t).lowest :=
    max_eq_left (le_max_right s.lowest t.lowest)
  have hhighest : min (s.meet t).highest t.highest = (s.meet t).highest :=
    min_eq_left (min_le_right s.highest t.highest)
  have hclip : clip (s.meet t).lowest (s.meet t).highest (s.meet t).preferred =
      (s.meet t).preferred := clip_eq_self fun _ hb => (of_meet_preferred hb).2
  have hpreferred : clip (s.meet t).lowest (s.meet t).highest t.preferred ≤
      (s.meet t).preferred := by
    rw [meet_preferred]
    exact le_max_right _ _
  rw [meet, hlowest, hhighest, hclip, max_eq_left hpreferred]

end Terms

/-- What an optional recommendation amounts to, if it can be computed with. -/
def preference : Option String → Option (WithBot Bound)
  | none => some ⊥
  | some v => (level v).map WithBot.some

theorem preference_injective {r s : Option String} {p : WithBot Bound}
    (hr : preference r = some p) (hs : preference s = some p) : r = s := by
  cases r <;> cases s <;> simp only [preference, Option.map_eq_some_iff, Option.some.injEq] at hr hs
  · rfl
  · obtain ⟨b, _, hb⟩ := hs
    exact absurd (hb.trans hr.symm) WithBot.coe_ne_bot
  · obtain ⟨b, _, hb⟩ := hr
    exact absurd (hb.trans hs.symm) WithBot.coe_ne_bot
  · obtain ⟨a, ha, rfl⟩ := hr
    obtain ⟨b, hb, he⟩ := hs
    obtain rfl := WithBot.coe_injective he
    rw [level_injective ha hb]

theorem exists_preference {r : Option String}
    (h : ∀ v, r = some v → isOrderable v = true ∧ fits v = true) : ∃ p, preference r = some p := by
  cases r with
  | none => exact ⟨⊥, rfl⟩
  | some v =>
    obtain ⟨b, hb⟩ := exists_level (h v rfl).1 (h v rfl).2
    exact ⟨b, Option.map_eq_some_iff.mpr ⟨b, hb, rfl⟩⟩

namespace Dependency

/-- The terms of a dependency, if all of its versions can be computed with. -/
def terms (d : Dependency) : Option Terms := do
  return ⟨← level d.minimum, ← ceiling d.maximum, ← preference d.recommended⟩

theorem terms_eq_some {d : Dependency} {t : Terms} : d.terms = some t ↔
    level d.minimum = some t.lowest ∧ ceiling d.maximum = some t.highest ∧
      preference d.recommended = some t.preferred := by
  simp only [terms, Option.bind_eq_bind, Option.bind_eq_some_iff, Option.pure_def,
    Option.some.injEq]
  constructor
  · intro hx
    obtain ⟨l, hl, h, hh, p, hp, rfl⟩ := hx
    exact ⟨hl, hh, hp⟩
  · intro hx
    obtain ⟨hl, hh, hp⟩ := hx
    exact ⟨_, hl, _, hh, _, hp, rfl⟩

theorem recommended_eq_some {d : Dependency} {t : Terms} {v : String} (h : d.terms = some t) :
    d.recommended = some v ↔ ∃ b : Bound, level v = some b ∧ t.preferred = b := by
  obtain ⟨_, _, hp⟩ := terms_eq_some.mp h
  constructor
  · intro hv
    rw [hv] at hp
    obtain ⟨b, hb, he⟩ := Option.map_eq_some_iff.mp hp
    exact ⟨b, hb, he.symm⟩
  · intro hx
    obtain ⟨b, hb, he⟩ := hx
    refine preference_injective hp ?_
    rw [he]
    exact Option.map_eq_some_iff.mpr ⟨b, hb, rfl⟩

/-- A dependency is told by its product, its terms and whether it is optional. -/
theorem terms_injective {d e : Dependency} {t : Terms} (hd : d.terms = some t)
    (he : e.terms = some t) (hp : d.product = e.product) (ho : d.optional = e.optional) :
    d = e := by
  obtain ⟨hdl, hdh, hdp⟩ := terms_eq_some.mp hd
  obtain ⟨hel, heh, hep⟩ := terms_eq_some.mp he
  have hmin := level_injective hdl hel
  have hmax := ceiling_injective hdh heh
  have hrec := preference_injective hdp hep
  cases d
  cases e
  simp_all

/-- A dependency that merging can compute with. -/
structure Mergeable (d : Dependency) : Prop where
  minimum : isOrderable d.minimum = true ∧ fits d.minimum = true
  maximum : (isOrderable d.maximum = true ∨ isMatcher d.maximum = true) ∧ fits d.maximum = true
  recommended : ∀ v, d.recommended = some v → isOrderable v = true ∧ fits v = true

theorem Mergeable.exists_terms {d : Dependency} (h : d.Mergeable) : ∃ t, d.terms = some t := by
  obtain ⟨l, hl⟩ := exists_level h.minimum.1 h.minimum.2
  obtain ⟨u, hu⟩ := exists_ceiling h.maximum.1 h.maximum.2
  obtain ⟨p, hp⟩ := exists_preference h.recommended
  exact ⟨⟨l, u, p⟩, terms_eq_some.mpr ⟨hl, hu, hp⟩⟩

end Dependency

end ProductLock
