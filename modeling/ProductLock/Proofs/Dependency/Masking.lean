import ProductLock.Proofs.Dependency.Folded

namespace ProductLock.Dependency

open Version

/-- A version that every window leaves open. -/
def Allowed (cs : List Dependency) (b : Bound) : Prop :=
  ∀ s ∈ termsOf cs, s.lowest ≤ b ∧ b ≤ s.highest

/-- A preference that its own window leaves open, but not every other. -/
structure Stray (cs : List Dependency) (p : Terms) (w : Bound) : Prop where
  mem : p ∈ termsOf cs
  preferred : p.preferred = w
  inside : w ≤ p.highest
  excluded : ∃ t ∈ termsOf cs, t.highest < w

/-- Merged at the wrong time, a preference is hidden behind a stray one, and lost when that is
dropped. -/
def Maskable (cs : List Dependency) (s : Terms) : Prop :=
  ∃ p w, Stray cs p w ∧ w ≤ s.highest

theorem mem_append_congr {cs cs' : List α} (ds : List α) (h : ∀ d, d ∈ cs ↔ d ∈ cs') (d : α) :
    d ∈ ds ++ cs ↔ d ∈ ds ++ cs' := by
  rw [List.mem_append, List.mem_append, h d]

theorem Allowed.mono {cs ds : List Dependency} {b : Bound} (h : Allowed ds b)
    (hsub : ∀ c ∈ cs, c ∈ ds) : Allowed cs b :=
  fun s hs => h s (termsOf_mono hsub s hs)

theorem Stray.mono {cs ds : List Dependency} {p : Terms} {w : Bound} (h : Stray cs p w)
    (hsub : ∀ c ∈ cs, c ∈ ds) : Stray ds p w := by
  obtain ⟨t, ht, hw⟩ := h.excluded
  exact ⟨termsOf_mono hsub p h.mem, h.preferred, h.inside, t, termsOf_mono hsub t ht, hw⟩

theorem Maskable.mono {cs ds : List Dependency} {s : Terms} (h : Maskable cs s)
    (hsub : ∀ c ∈ cs, c ∈ ds) : Maskable ds s := by
  obtain ⟨p, w, hp, hw⟩ := h
  exact ⟨p, w, hp.mono hsub, hw⟩

/-- The window of what dependencies merge to is what all of them leave open. -/
theorem Tightest.allowed_iff {cs : List Dependency} {m : Dependency} {t : Terms} {b : Bound}
    (h : Tightest cs m t) : Allowed cs b ↔ t.lowest ≤ b ∧ b ≤ t.highest := by
  constructor
  · intro hb
    obtain ⟨s, hs, hsl⟩ := h.lowest.1
    obtain ⟨u, hu, huh⟩ := h.highest.1
    exact ⟨hsl ▸ (hb s hs).1, huh ▸ (hb u hu).2⟩
  · intro hb s hs
    exact ⟨(h.lowest.2 ⟨s, hs, rfl⟩).trans hb.1, hb.2.trans (h.highest.2 ⟨s, hs, rfl⟩)⟩

theorem mem_termsOf_single {d : Dependency} {s t : Terms} (hs : s ∈ termsOf [d])
    (ht : d.terms = some t) : s = t := by
  obtain ⟨c, hc, hcs⟩ := mem_termsOf.mp hs
  rw [List.mem_singleton.mp hc, ht] at hcs
  exact (Option.some.inj hcs).symm

/-- While it is not in the window, what a merged list prefers is a stray preference. -/
theorem Merged.stray {cs ds : List Dependency} {e d : Dependency} {s u t : Terms} {x : Bound}
    (h : Merged cs e) (hu : e.terms = some u) (hd : d.terms = some t)
    (hsub : ∀ c ∈ cs ++ [d], c ∈ ds) (hs : s ∈ termsOf cs) (hx : u.preferred = x)
    (hne : s.preferred ≠ x) (hout : (u.meet t).highest < x) :
    Maskable ds s := by
  have hcover := h.covers hu
  obtain ⟨p, hp, hpx⟩ := hcover.preferred x hx
  rcases h.tightest with hall | ⟨_, u', hu', hsound⟩
  · obtain ⟨c, hc, hcs⟩ := mem_termsOf.mp hs
    rw [hall c hc, hu] at hcs
    exact absurd (Option.some.inj hcs ▸ hx) hne
  · rw [hu'.terms, Option.some.injEq] at hu
    subst hu
    have hxu : x ≤ u'.highest := (hsound.preferred x hx).2
    have hxt : t.highest < x := by
      rcases min_lt_iff.mp hout with hlt | hlt
      · exact absurd hxu (not_le.mpr hlt)
      · exact hlt
    have hleft : ∀ c ∈ cs, c ∈ ds := fun c hc => hsub c (List.mem_append_left _ hc)
    have hright : d ∈ ds := hsub d (List.mem_append_right _ List.mem_cons_self)
    refine ⟨p, x, ⟨termsOf_mono hleft p hp, hpx, ?_, t, mem_termsOf.mpr ⟨d, hright, hd⟩, hxt⟩, ?_⟩
    · exact hxu.trans (hcover.highest.2 ⟨p, hp, rfl⟩)
    · exact hxu.trans (hcover.highest.2 ⟨s, hs, rfl⟩)

/-- A preference that all windows leave open and that nothing can hide is not lost. -/
theorem Folded.keeps {cs ds : List Dependency} {m : Dependency} {s t : Terms} {v : Bound}
    (h : Folded cs m) (ht : m.terms = some t) (hsub : ∀ c ∈ cs, c ∈ ds) (hs : s ∈ termsOf cs)
    (hv : s.preferred = v) (hallowed : Allowed ds v) (hmask : ¬ Maskable ds s) :
    v ≤ t.preferred := by
  induction cs using List.reverseRecOn generalizing m t with
  | nil => exact h.elim
  | append_singleton cs d ih =>
    have hleft : ∀ c ∈ cs, c ∈ ds := fun c hc => hsub c (List.mem_append_left _ hc)
    by_cases hcs : cs = []
    · subst hcs
      rw [folded_single.mp h] at ht
      rw [← mem_termsOf_single hs ht, hv]
    · obtain ⟨e, he, hm⟩ := (folded_snoc hcs).mp h
      rw [termsOf_append, List.mem_append] at hs
      by_cases hed : e = d
      · subst hed
        rw [merge_self, Except.ok.injEq] at hm
        subst hm
        rcases hs with hs | hs
        · exact ih he ht hleft hs
        · rw [← mem_termsOf_single hs ht, hv]
      · obtain ⟨u, w, hu, hw, _, hmt, _⟩ := merge_terms hed hm
        rw [hmt, Option.some.injEq] at ht
        subst ht
        have hin := (h.merged.covers hmt).allowed_iff.mp (hallowed.mono hsub)
        rcases hs with hs | hs
        · have hle := ih he hu hleft hs
          cases hx : u.preferred with
          | bot => simp [hx] at hle
          | coe x =>
            rw [hx, WithBot.coe_le_coe] at hle
            by_cases hout : x ≤ (u.meet w).highest
            · have hkept := Terms.le_meet_preferred (.inl hx) (hin.1.trans hle) hout
              exact (WithBot.coe_le_coe.mpr hle).trans hkept
            · have hlt := not_le.mp hout
              refine absurd (he.merged.stray hu hw hsub hs hx ?_ hlt) hmask
              intro hsx
              rw [hv, WithBot.coe_inj] at hsx
              exact hout (hsx ▸ hin.2)
        · rw [mem_termsOf_single hs hw] at hv
          exact Terms.le_meet_preferred (.inr hv) hin.1 hin.2

end ProductLock.Dependency
