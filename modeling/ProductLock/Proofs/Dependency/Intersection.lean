import ProductLock.Proofs.Dependency.Conflict
import ProductLock.Proofs.Dependency.Fields
import ProductLock.Proofs.Dependency.Refusal

namespace ProductLock.Dependency

open Version

variable {a b m : Dependency} {s t : Terms} {v : String}

/-- A version that one of two dependencies recommends and a third one admits. -/
def Candidate (a b m : Dependency) (v : String) : Prop :=
  (a.recommended = some v ∨ b.recommended = some v) ∧ m.Admits v

/-- A dependency that admits what two others both admit, and recommends the greatest of their
recommendations that it admits. -/
structure Intersects (a b m : Dependency) : Prop where
  product : m.product = a.product
  optional : m.optional = (a.optional && b.optional)
  window : ∀ v, m.Admits v ↔ a.Admits v ∧ b.Admits v
  recommended : ∀ v, m.recommended = some v → Candidate a b m v ∧
    ∀ w, Candidate a b m w → ∃ o, compareOrderable w v = .ok o ∧ o ≠ .gt
  unrecommended : m.recommended = none ↔ ∀ v, ¬ Candidate a b m v

theorem admits_meet (hs : a.terms = some s) (ht : b.terms = some t)
    (hm : m.terms = some (s.meet t)) : m.Admits v ↔ a.Admits v ∧ b.Admits v := by
  rw [admits_iff hm, admits_iff hs, admits_iff ht]
  constructor
  · intro h
    obtain ⟨c, hc, hl, hh⟩ := h
    exact ⟨⟨c, hc, (le_max_left _ _).trans hl, hh.trans (min_le_left _ _)⟩,
      c, hc, (le_max_right _ _).trans hl, hh.trans (min_le_right _ _)⟩
  · intro h
    obtain ⟨⟨c, hc, hl, hh⟩, c', hc', hl', hh'⟩ := h
    rw [hc, Option.some.injEq] at hc'
    subst hc'
    exact ⟨c, hc, max_le hl hl', le_min hh hh'⟩

/-- The candidates are what the preferences in the common window stand for. -/
theorem candidate_iff (hs : a.terms = some s) (ht : b.terms = some t)
    (hm : m.terms = some (s.meet t)) : Candidate a b m v ↔
      ∃ c : Bound, level v = some c ∧ (s.preferred = c ∨ t.preferred = c) ∧
        (s.meet t).lowest ≤ c ∧ c ≤ (s.meet t).highest := by
  rw [Candidate, recommended_eq_some hs, recommended_eq_some ht, admits_iff hm]
  constructor
  · intro h
    obtain ⟨hr, c, hc, hin⟩ := h
    refine ⟨c, hc, ?_, hin⟩
    rcases hr with ⟨d, hd, hp⟩ | ⟨d, hd, hp⟩
    · rw [hc, Option.some.injEq] at hd
      exact .inl (hd ▸ hp)
    · rw [hc, Option.some.injEq] at hd
      exact .inr (hd ▸ hp)
  · intro h
    obtain ⟨c, hc, hp, hin⟩ := h
    exact ⟨hp.imp (⟨c, hc, ·⟩) (⟨c, hc, ·⟩), c, hc, hin⟩

theorem intersects_of_meet (hs : a.terms = some s) (ht : b.terms = some t)
    (hm : m.terms = some (s.meet t)) (hp : m.product = a.product)
    (ho : m.optional = (a.optional && b.optional)) : Intersects a b m := by
  have hcandidate : ∀ v, m.recommended = some v → Candidate a b m v := by
    intro v hv
    obtain ⟨c, hc, hpref⟩ := (recommended_eq_some hm).mp hv
    exact (candidate_iff hs ht hm).mpr ⟨c, hc, Terms.of_meet_preferred hpref⟩
  refine ⟨hp, ho, fun v => admits_meet hs ht hm, fun v hv => ⟨hcandidate v hv, ?_⟩, ?_⟩
  · intro w hw
    obtain ⟨c, hc, hpref⟩ := (recommended_eq_some hm).mp hv
    obtain ⟨d, hd, hfrom, hl, hh⟩ := (candidate_iff hs ht hm).mp hw
    have hle := Terms.le_meet_preferred hfrom hl hh
    rw [hpref, WithBot.coe_le_coe] at hle
    exact ⟨_, compareOrderable_ok.mpr ⟨d, c, hd, hc, rfl⟩, Bound.le_iff.mp hle⟩
  · constructor
    · intro hnone w hw
      obtain ⟨d, hd, hfrom, hl, hh⟩ := (candidate_iff hs ht hm).mp hw
      have hle := Terms.le_meet_preferred hfrom hl hh
      have hbot : (s.meet t).preferred = ⊥ := by
        have hpref := (terms_eq_some.mp hm).2.2
        rw [hnone] at hpref
        exact (Option.some.inj hpref).symm
      rw [hbot, le_bot_iff] at hle
      exact WithBot.coe_ne_bot hle
    · intro hnone
      cases hr : m.recommended with
      | none => rfl
      | some v => exact absurd (hcandidate v hr) (hnone v)

/-- A clash leaves no version that both admit. -/
theorem Clash.disjoint {minimum maximum : String} (h : Clash a b minimum maximum) :
    ¬ (a.Admits v ∧ b.Admits v) := by
  obtain ⟨l, l', u, u', hal, hbl, hau, hbu, _, _, hlt⟩ := h.bounds
  intro hadmits
  obtain ⟨c, hc, hin⟩ := (inWindow_ok hal hau).mp hadmits.1
  obtain ⟨c', hc', hin'⟩ := (inWindow_ok hbl hbu).mp hadmits.2
  rw [hc, Option.some.injEq] at hc'
  subst hc'
  obtain ⟨hl, hu⟩ := of_decide_eq_true hin
  obtain ⟨hl', hu'⟩ := of_decide_eq_true hin'
  exact absurd hlt (not_lt.mpr ((max_le hl hl').trans (le_min hu hu')))

/-- Two different dependencies on one product are merged to their intersection, and it is a conflict
exactly if no version lies in both windows. -/
theorem merge_intersects (hne : a ≠ b) (hp : a.product = b.product) (ha : a.Mergeable)
    (hb : b.Mergeable) :
    ((∃ minimum maximum, a.merge b = .error (.rangeConflict a b minimum maximum)) ↔
      ¬ ∃ v, isOrderable v = true ∧ a.Admits v ∧ b.Admits v) ∧
    ((∃ v, isOrderable v = true ∧ a.Admits v ∧ b.Admits v) →
      ∃ m, a.merge b = .ok m ∧ Intersects a b m) := by
  obtain ⟨s, hs⟩ := ha.exists_terms
  obtain ⟨t, ht⟩ := hb.exists_terms
  have hdisjoint : (∃ minimum maximum, Clash a b minimum maximum) →
      ¬ ∃ v, isOrderable v = true ∧ a.Admits v ∧ b.Admits v := by
    intro hclash hx
    obtain ⟨minimum, maximum, hclash⟩ := hclash
    obtain ⟨v, _, hv⟩ := hx
    exact hclash.disjoint hv
  simp only [merge_conflict_iff, true_and]
  rcases le_or_gt (s.meet t).lowest (s.meet t).highest with hle | hlt
  · obtain ⟨m, hm⟩ := exists_merge hp hs ht hle
    obtain ⟨hmt, hmp, hmo⟩ := merge_meets hne hs ht hm
    -- The minimum of the result is a version that both admit.
    have hlevel : level m.minimum = some (s.meet t).lowest := (terms_eq_some.mp hmt).1
    have hadmits : m.Admits m.minimum := (admits_iff hmt).mpr ⟨_, hlevel, le_rfl, hle⟩
    have hcommon : ∃ v, isOrderable v = true ∧ a.Admits v ∧ b.Admits v :=
      ⟨m.minimum, isOrderable_of_level hlevel, (admits_meet hs ht hmt).mp hadmits⟩
    refine ⟨⟨hdisjoint, fun hnone => absurd hcommon hnone⟩, fun _ => ⟨m, hm, ?_⟩⟩
    exact intersects_of_meet hs ht hmt hmp hmo
  · have hclash := exists_clash hp hne hs ht hlt
    exact ⟨⟨hdisjoint, fun _ => hclash⟩, fun hcommon => absurd hcommon (hdisjoint hclash)⟩

/-- Two recommendations, of which the maximum of the second excludes the higher one. -/
def hopeful : Dependency :=
  .ofFields ⟨"com.example", "lib", "1.2.0-rc1", "x.x.x", some "2.1.0", true⟩ rfl

def cautious : Dependency :=
  .ofFields ⟨"com.example", "lib", "1.0.0", "1.x.x", some "1.5.0-3-gabc", false⟩ rfl

theorem hopeful_mergeable : hopeful.Mergeable where
  minimum := by decide +kernel
  maximum := by decide +kernel
  recommended := by decide +kernel

theorem cautious_mergeable : cautious.Mergeable where
  minimum := by decide +kernel
  maximum := by decide +kernel
  recommended := by decide +kernel

theorem merge_intersects_hopeful :
    hopeful ≠ cautious ∧ hopeful.product = cautious.product ∧ hopeful.Mergeable ∧
    cautious.Mergeable ∧
    (∃ v, isOrderable v = true ∧ hopeful.Admits v ∧ cautious.Admits v) ∧
    ∃ m, hopeful.merge cautious = .ok m ∧ Intersects hopeful cautious m := by
  have hne : hopeful ≠ cautious := by decide +kernel
  have hp : hopeful.product = cautious.product := by decide +kernel
  have hversion : isOrderable "1.5.0-3-gabc" = true ∧ hopeful.Admits "1.5.0-3-gabc" ∧
      cautious.Admits "1.5.0-3-gabc" := by
    unfold Admits
    decide +kernel
  have hcommon : ∃ v, isOrderable v = true ∧ hopeful.Admits v ∧ cautious.Admits v := ⟨_, hversion⟩
  exact ⟨hne, hp, hopeful_mergeable, cautious_mergeable, hcommon,
    (merge_intersects hne hp hopeful_mergeable cautious_mergeable).2 hcommon⟩

end ProductLock.Dependency
