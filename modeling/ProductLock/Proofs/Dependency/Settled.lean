import ProductLock.Proofs.Dependency.Masking

namespace ProductLock.Dependency

open Version

/-- What discovered dependencies on one product come to, together with its declaration if there is
one. -/
inductive Joined : List Dependency → List Dependency → Dependency → Prop where
  | alone (hf : Folded cs f) : Joined [] cs f
  | declared (hf : Folded cs f) (hm : own.merge f = .ok m) : Joined [own] cs m

/-- The order decides whether the lower of two recommendations comes out, or something else: both are
open to all that is discovered, the lower one to the declaration too, which recommends nothing that
is as high; and whatever could stand up for the higher one, or for any above the lower, can be
masked. -/
structure Unsettled (ds cs : List Dependency) (x y : Bound) : Prop where
  lower : ∃ s ∈ termsOf cs, s.preferred = x
  upper : ∃ s ∈ termsOf cs, s.preferred = y
  le : x ≤ y
  allowed_lower : Allowed (ds ++ cs) x
  allowed_upper : Allowed cs y
  undeclared : ∀ s ∈ termsOf ds, ∀ v : Bound, s.preferred = v → Allowed (ds ++ cs) v → v < x
  masked : ∀ s ∈ termsOf cs, ∀ v : Bound, s.preferred = v → Allowed cs v → x < v ∨ y ≤ v →
    Maskable cs s

/-- What is preferred in the end, of what the declaration and the discovered dependencies prefer. -/
structure Outcome (ds cs : List Dependency) (m f : Dependency) (t u : Terms) : Prop where
  folded : Folded cs f
  terms : f.terms = some t
  sound : t.Sound
  result : m.terms = some u
  keeps : ∀ b : Bound, (t.preferred = b ∨ ∃ s ∈ termsOf ds, s.preferred = b) →
    Allowed (ds ++ cs) b → b ≤ u.preferred
  source : ∀ b : Bound, u.preferred = b →
    Allowed (ds ++ cs) b ∧ (t.preferred = b ∨ ∃ s ∈ termsOf ds, s.preferred = b)

theorem Joined.merged {ds cs : List Dependency} {m : Dependency} (h : Joined ds cs m) :
    Merged (ds ++ cs) m := by
  cases h with
  | alone hf => exact hf.merged
  | declared hf hm => exact (Merged.single _).of_merge hf.merged hm

theorem Folded.sound {cs : List Dependency} {f : Dependency} (h : Folded cs f) (hmix : Mixed cs) :
    ∃ t, f.terms = some t ∧ t.Sound := by
  rcases h.merged.tightest with hall | ⟨_, t, ht, hs⟩
  · exact absurd hmix (not_mixed_of_uniform hall)
  · exact ⟨t, ht.terms, hs⟩

/-- Merging with sound terms always is a meet, even if the two dependencies are equal. -/
theorem merge_terms_of_sound {a b m : Dependency} {t : Terms} (hm : a.merge b = .ok m)
    (ht : b.terms = some t) (hs : t.Sound) : ∃ s, a.terms = some s ∧ m.terms = some (s.meet t) := by
  by_cases hab : a = b
  · subst hab
    rw [merge_self, Except.ok.injEq] at hm
    subst hm
    exact ⟨t, ht, by rw [Terms.meet_self hs, ht]⟩
  · obtain ⟨s, t', hs', ht', _, hmt, _⟩ := merge_terms hab hm
    rw [ht, Option.some.injEq] at ht'
    exact ⟨s, hs', ht' ▸ hmt⟩

theorem Joined.outcome {ds cs : List Dependency} {m : Dependency} (h : Joined ds cs m)
    (hmix : Mixed cs) : ∃ f t u, Outcome ds cs m f t u := by
  have hmerged := h.merged
  cases h with
  | alone hf =>
    obtain ⟨t, ht, hs⟩ := hf.sound hmix
    have hcover := hf.merged.covers ht
    refine ⟨m, t, t, hf, ht, hs, ht, ?_, ?_⟩
    · intro b hb _
      rcases hb with hb | ⟨s, hs, _⟩
      · exact hb.ge
      · exact absurd hs List.not_mem_nil
    · intro b hb
      exact ⟨hcover.allowed_iff.mpr (hs.preferred b hb), .inl hb⟩
  | @declared _ f own _ hf hm =>
    obtain ⟨t, ht, hs⟩ := hf.sound hmix
    obtain ⟨s, hown, hmt⟩ := merge_terms_of_sound hm ht hs
    have hcover := hmerged.covers hmt
    have hmem : s ∈ termsOf [own] := mem_termsOf.mpr ⟨own, List.mem_cons_self, hown⟩
    refine ⟨f, t, s.meet t, hf, ht, hs, hmt, ?_, ?_⟩
    · intro b hb hallowed
      have hin := hcover.allowed_iff.mp hallowed
      rcases hb with hb | ⟨s', hs', hb⟩
      · exact Terms.le_meet_preferred (.inr hb) hin.1 hin.2
      · rw [mem_termsOf_single hs' hown] at hb
        exact Terms.le_meet_preferred (.inl hb) hin.1 hin.2
    · intro b hb
      obtain ⟨hfrom, hin⟩ := Terms.of_meet_preferred hb
      refine ⟨hcover.allowed_iff.mpr hin, ?_⟩
      rcases hfrom with hb | hb
      · exact .inr ⟨s, hmem, hb⟩
      · exact .inl hb

/-- Preferences that the declaration could have brought about do not reach one that was lost. -/
theorem Outcome.lt_of_lost {ds cs : List Dependency} {m f : Dependency} {t u : Terms} {x : Bound}
    (h : Outcome ds cs m f t u) (hlt : u.preferred < x) :
    ∀ s ∈ termsOf ds, ∀ v : Bound, s.preferred = v → Allowed (ds ++ cs) v → v < x := by
  intro s hs v hv hav
  have hle := h.keeps v (.inr ⟨s, hs, hv⟩) hav
  exact WithBot.coe_lt_coe.mp (hle.trans_lt hlt)

theorem Outcome.masked_of_lt {ds cs : List Dependency} {m f : Dependency} {s t u : Terms}
    {v : Bound} (h : Outcome ds cs m f t u) (hs : s ∈ termsOf cs) (hv : s.preferred = v)
    (hav : Allowed cs v) (hlt : t.preferred < v) : Maskable cs s := by
  by_contra hmask
  have hle := h.folded.keeps h.terms (fun _ hc => hc) hs hv hav hmask
  exact absurd hlt (not_lt.mpr hle)

/-- Two orders of the same dependencies that end in different preferences leave something
unsettled. -/
theorem Outcome.unsettled {ds cs cs' : List Dependency} {m f m' f' : Dependency}
    {t u t' u' : Terms} (h : Outcome ds cs m f t u) (h' : Outcome ds cs' m' f' t' u')
    (hset : ∀ d, d ∈ cs ↔ d ∈ cs') (hlt : u.preferred < u'.preferred) :
    ∃ x y, Unsettled ds cs x y := by
  have hto : ∀ c ∈ cs, c ∈ cs' := fun c hc => (hset c).mp hc
  have hfrom : ∀ c ∈ cs', c ∈ cs := fun c hc => (hset c).mpr hc
  have hcover := h.folded.merged.covers h.terms
  have hcover' := h'.folded.merged.covers h'.terms
  cases hx : u'.preferred with
  | bot => simp [hx] at hlt
  | coe x =>
    rw [hx] at hlt
    obtain ⟨hallowed, hsource⟩ := h'.source x hx
    have hallowed : Allowed (ds ++ cs) x :=
      hallowed.mono fun c hc => (mem_append_congr ds hset c).mp hc
    have hallowedx : Allowed cs x := hallowed.mono fun c hc => List.mem_append_right _ hc
    have hundeclared := h.lt_of_lost hlt
    have htx : t'.preferred = x := by
      rcases hsource with hfold | ⟨s, hs, hsx⟩
      · exact hfold
      · exact absurd (hundeclared s hs x hsx hallowed) (lt_irrefl x)
    have hlower : ∃ s ∈ termsOf cs, s.preferred = x := by
      obtain ⟨s, hs, hsx⟩ := hcover'.preferred x htx
      exact ⟨s, termsOf_mono hfrom s hs, hsx⟩
    rcases lt_or_ge t.preferred (x : WithBot Bound) with htlt | hge
    -- the lower one is lost while the discovered dependencies are merged
    · refine ⟨x, x, hlower, hlower, le_rfl, hallowed, hallowedx, hundeclared, ?_⟩
      intro s hs v hv hav hvx
      have hxv : x ≤ v := hvx.elim le_of_lt id
      exact h.masked_of_lt hs hv hav (htlt.trans_le (WithBot.coe_le_coe.mpr hxv))
    -- a higher one stands in front of it, until the declaration rules that one out
    · cases hy : t.preferred with
      | bot => simp [hy] at hge
      | coe y =>
        rw [hy, WithBot.coe_le_coe] at hge
        have hne : x ≠ y := by
          intro hxy
          exact absurd (h.keeps x (.inl (hxy ▸ hy)) hallowed) (not_le.mpr hlt)
        have hallowedy : Allowed cs y := hcover.allowed_iff.mpr (h.sound.preferred y hy)
        refine ⟨x, y, hlower, hcover.preferred y hy, hge, hallowed, hallowedy, hundeclared, ?_⟩
        intro s hs v hv hav hvx
        have hxv : x < v := hvx.elim id fun hyv => (lt_of_le_of_ne hge hne).trans_le hyv
        have htv : t'.preferred < v := htx ▸ WithBot.coe_lt_coe.mpr hxv
        exact (h'.masked_of_lt (termsOf_mono hto s hs) hv (hav.mono hfrom) htv).mono hfrom

theorem lowests_mono {cs ds : List Dependency} (h : ∀ c ∈ cs, c ∈ ds) :
    lowests cs ⊆ lowests ds := by
  intro b hb
  obtain ⟨s, hs, hsb⟩ := hb
  exact ⟨s, termsOf_mono h s hs, hsb⟩

theorem highests_mono {cs ds : List Dependency} (h : ∀ c ∈ cs, c ∈ ds) :
    highests cs ⊆ highests ds := by
  intro b hb
  obtain ⟨s, hs, hsb⟩ := hb
  exact ⟨s, termsOf_mono h s hs, hsb⟩

/-- Apart from the preference, it does not matter in which order dependencies are merged. -/
theorem Merged.eq_of_preferred {cs ds : List Dependency} {m n : Dependency} {t u : Terms}
    (hm : Merged cs m) (hn : Merged ds n) (hset : ∀ d, d ∈ cs ↔ d ∈ ds) (ht : m.terms = some t)
    (hu : n.terms = some u) (hp : t.preferred = u.preferred) : m = n := by
  have hct := hm.covers ht
  have hcu := hn.covers hu
  have hto : ∀ c ∈ cs, c ∈ ds := fun c hc => (hset c).mp hc
  have hfrom : ∀ c ∈ ds, c ∈ cs := fun c hc => (hset c).mpr hc
  have hlow : lowests cs = lowests ds := (lowests_mono hto).antisymm (lowests_mono hfrom)
  have hhigh : highests cs = highests ds := (highests_mono hto).antisymm (highests_mono hfrom)
  have hl : t.lowest = u.lowest := hct.lowest.unique (hlow ▸ hcu.lowest)
  have hh : t.highest = u.highest := hct.highest.unique (hhigh ▸ hcu.highest)
  have htu : t = u := by
    cases t
    cases u
    simp_all
  have hproduct : m.product = n.product := by
    obtain ⟨c, hc⟩ := List.exists_mem_of_ne_nil cs hm.nonempty
    rw [← hm.product c hc, ← hn.product c (hto c hc)]
  have hoptional : m.optional = n.optional := by
    rw [Bool.eq_iff_iff, hm.optional_iff, hn.optional_iff]
    exact ⟨fun h c hc => h c (hfrom c hc), fun h c hc => h c (hto c hc)⟩
  exact terms_injective ht (htu ▸ hu) hproduct hoptional

theorem Unsettled.mono {ds cs cs' : List Dependency} {x y : Bound} (h : Unsettled ds cs x y)
    (hset : ∀ d, d ∈ cs ↔ d ∈ cs') : Unsettled ds cs' x y := by
  have hto : ∀ c ∈ cs, c ∈ cs' := fun c hc => (hset c).mp hc
  have hfrom : ∀ c ∈ cs', c ∈ cs := fun c hc => (hset c).mpr hc
  have happend := mem_append_congr ds hset
  have hallowed : Allowed (ds ++ cs') x := h.allowed_lower.mono fun c hc => (happend c).mpr hc
  refine ⟨?_, ?_, h.le, hallowed, h.allowed_upper.mono hfrom, ?_, ?_⟩
  · obtain ⟨s, hs, hsx⟩ := h.lower
    exact ⟨s, termsOf_mono hto s hs, hsx⟩
  · obtain ⟨s, hs, hsy⟩ := h.upper
    exact ⟨s, termsOf_mono hto s hs, hsy⟩
  · intro s hs v hv hav
    exact h.undeclared s hs v hv (hav.mono fun c hc => (happend c).mp hc)
  · intro s hs v hv hav hvx
    exact (h.masked s (termsOf_mono hfrom s hs) v hv (hav.mono hto) hvx).mono hto

theorem Joined.eq_of_not_mixed {ds cs cs' : List Dependency} {m n : Dependency}
    (hm : Joined ds cs m) (hn : Joined ds cs' n) (hset : ∀ d, d ∈ cs ↔ d ∈ cs')
    (hmix : ¬ Mixed cs) : m = n := by
  have hmix' : ¬ Mixed cs' := fun h => hmix (h.mono fun c hc => (hset c).mpr hc)
  have hfold : ∀ f g, Folded cs f → Folded cs' g → f = g := by
    intro f g hf hg
    obtain ⟨c, hc⟩ := List.exists_mem_of_ne_nil cs hf.ne_nil
    rw [← hf.merged.eq_of_not_mixed hmix hc,
      ← hg.merged.eq_of_not_mixed hmix' ((hset c).mp hc)]
  cases hm with
  | alone hf =>
    cases hn with
    | alone hg => exact hfold _ _ hf hg
  | declared hf hok =>
    cases hn with
    | declared hg hok' =>
      rw [hfold _ _ hf hg, hok', Except.ok.injEq] at hok
      exact hok.symm

/-- Where nothing is unsettled, order and repetition do not matter. -/
theorem Joined.unique {ds cs cs' : List Dependency} {m n : Dependency} (hm : Joined ds cs m)
    (hn : Joined ds cs' n) (hset : ∀ d, d ∈ cs ↔ d ∈ cs') (h : ∀ x y, ¬ Unsettled ds cs x y) :
    m = n := by
  by_cases hmix : Mixed cs
  · obtain ⟨f, t, u, ho⟩ := hm.outcome hmix
    obtain ⟨f', t', u', ho'⟩ := hn.outcome (hmix.mono fun c hc => (hset c).mp hc)
    have hp : u.preferred = u'.preferred := by
      rcases lt_trichotomy u.preferred u'.preferred with hlt | heq | hgt
      · obtain ⟨x, y, hxy⟩ := ho.unsettled ho' hset hlt
        exact absurd hxy (h x y)
      · exact heq
      · obtain ⟨x, y, hxy⟩ := ho'.unsettled ho (fun d => (hset d).symm) hgt
        exact absurd (hxy.mono fun d => (hset d).symm) (h x y)
    exact hm.merged.eq_of_preferred hn.merged (mem_append_congr ds hset) ho.result ho'.result hp
  · exact hm.eq_of_not_mixed hn hset hmix

end ProductLock.Dependency
