import Mathlib.Order.Bounds.Basic
import ProductLock.Proofs.Dependency.Merge

namespace ProductLock.Dependency

open Version

/-- The terms of the dependencies whose versions can be computed with. -/
def termsOf (cs : List Dependency) : List Terms :=
  cs.filterMap terms

theorem mem_termsOf {cs : List Dependency} {s : Terms} :
    s ∈ termsOf cs ↔ ∃ c ∈ cs, c.terms = some s :=
  List.mem_filterMap

theorem termsOf_append (cs ds : List Dependency) :
    termsOf (cs ++ ds) = termsOf cs ++ termsOf ds :=
  List.filterMap_append

theorem termsOf_mono {cs ds : List Dependency} (h : ∀ c ∈ cs, c ∈ ds) :
    ∀ s ∈ termsOf cs, s ∈ termsOf ds := by
  intro s hs
  obtain ⟨c, hc, hcs⟩ := mem_termsOf.mp hs
  exact mem_termsOf.mpr ⟨c, h c hc, hcs⟩

def lowests (cs : List Dependency) : Set Bound :=
  {b | ∃ s ∈ termsOf cs, s.lowest = b}

def highests (cs : List Dependency) : Set Bound :=
  {b | ∃ s ∈ termsOf cs, s.highest = b}

theorem lowests_append (cs ds : List Dependency) : lowests (cs ++ ds) = lowests cs ∪ lowests ds := by
  ext b
  simp only [lowests, termsOf_append, List.mem_append, Set.mem_ofPred_eq, Set.mem_union, or_and_right,
    exists_or]

theorem highests_append (cs ds : List Dependency) :
    highests (cs ++ ds) = highests cs ∪ highests ds := by
  ext b
  simp only [highests, termsOf_append, List.mem_append, Set.mem_ofPred_eq, Set.mem_union,
    or_and_right, exists_or]

def Mixed (cs : List Dependency) : Prop :=
  ∃ c ∈ cs, ∃ d ∈ cs, c ≠ d

/-- A dependency asks for as much as all of a list together. The preference is only known to be one
of theirs: which of them it is depends on how they were merged. -/
structure Tightest (cs : List Dependency) (m : Dependency) (t : Terms) : Prop where
  terms : m.terms = some t
  computable : ∀ c ∈ cs, ∃ s, c.terms = some s
  lowest : IsGreatest (lowests cs) t.lowest
  highest : IsLeast (highests cs) t.highest
  preferred : ∀ b : Bound, t.preferred = b → ∃ s ∈ termsOf cs, s.preferred = b
  optional : m.optional = cs.all Dependency.optional

/-- What dependencies on one product merge to. Equal ones are taken as they are, and their window
and preference are not looked at. -/
structure Merged (cs : List Dependency) (m : Dependency) : Prop where
  nonempty : cs ≠ []
  product : ∀ c ∈ cs, c.product = m.product
  tightest : (∀ c ∈ cs, c = m) ∨ Mixed cs ∧ ∃ t, Tightest cs m t ∧ t.Sound

theorem Merged.single (d : Dependency) : Merged [d] d where
  nonempty := by simp
  product := by simp
  tightest := by simp

theorem Mixed.mono {cs ds : List Dependency} (h : Mixed cs) (hsub : ∀ c ∈ cs, c ∈ ds) :
    Mixed ds := by
  obtain ⟨c, hc, d, hd, hne⟩ := h
  exact ⟨c, hsub c hc, d, hsub d hd, hne⟩

theorem not_mixed_of_uniform {cs : List Dependency} {d : Dependency} (h : ∀ c ∈ cs, c = d) :
    ¬ Mixed cs := by
  intro hm
  obtain ⟨a, ha, b, hb, hne⟩ := hm
  exact hne ((h a ha).trans (h b hb).symm)

theorem uniform_of_not_mixed {cs : List Dependency} {d : Dependency} (h : ¬ Mixed cs)
    (hd : d ∈ cs) : ∀ c ∈ cs, c = d := by
  intro c hc
  by_contra hne
  exact h ⟨c, hc, d, hd, hne⟩

theorem Merged.optional_iff {cs : List Dependency} {m : Dependency} (h : Merged cs m) :
    m.optional = true ↔ ∀ c ∈ cs, c.optional = true := by
  rcases h.tightest with hall | ⟨_, t, ht, _⟩
  · obtain ⟨c, hc⟩ := List.exists_mem_of_ne_nil cs h.nonempty
    exact ⟨fun ho d hd => hall d hd ▸ ho, fun ho => hall c hc ▸ ho c hc⟩
  · rw [ht.optional, List.all_eq_true]

/-- Equal dependencies, too, are summed up by the one that stands for them. -/
theorem Merged.covers {cs : List Dependency} {m : Dependency} {t : Terms} (h : Merged cs m)
    (ht : m.terms = some t) : Tightest cs m t := by
  rcases h.tightest with hall | ⟨_, s, hs, _⟩
  · have hmem : ∀ s, s ∈ termsOf cs ↔ s = t := by
      intro s
      rw [mem_termsOf]
      constructor
      · intro hs
        obtain ⟨c, hc, hcs⟩ := hs
        rw [hall c hc, ht] at hcs
        exact (Option.some.inj hcs).symm
      · intro hs
        obtain ⟨c, hc⟩ := List.exists_mem_of_ne_nil cs h.nonempty
        exact ⟨c, hc, by rw [hall c hc, ht, hs]⟩
    refine ⟨ht, fun c hc => ⟨t, hall c hc ▸ ht⟩, ?_, ?_, ?_, ?_⟩
    · simp [lowests, hmem]
    · simp [highests, hmem]
    · intro b hb
      exact ⟨t, (hmem t).mpr rfl, hb⟩
    · rw [Bool.eq_iff_iff, List.all_eq_true]
      exact h.optional_iff
  · have hts := Option.some.inj (ht.symm.trans hs.terms)
    exact hts ▸ hs

theorem Merged.product_eq {cs : List Dependency} {m : Dependency} {id : ProductId}
    (h : Merged cs m) (hid : ∀ c ∈ cs, c.product = id) : m.product = id := by
  obtain ⟨c, hc⟩ := List.exists_mem_of_ne_nil cs h.nonempty
  rw [← h.product c hc, hid c hc]

theorem Merged.eq_of_not_mixed {cs : List Dependency} {c m : Dependency} (h : Merged cs m)
    (hn : ¬ Mixed cs) (hc : c ∈ cs) : c = m := by
  rcases h.tightest with hall | ⟨hm, _⟩
  · exact hall c hc
  · exact absurd hm hn

/-- Merging what two lists merge to covers both lists. -/
theorem Tightest.meet {cs ds : List Dependency} {a b m : Dependency} {s t : Terms}
    (ha : Tightest cs a s) (hb : Tightest ds b t) (hm : m.terms = some (s.meet t))
    (ho : m.optional = (a.optional && b.optional)) : Tightest (cs ++ ds) m (s.meet t) where
  terms := hm
  computable c hc := by
    rcases List.mem_append.mp hc with hc | hc
    · exact ha.computable c hc
    · exact hb.computable c hc
  lowest := by
    rw [lowests_append]
    exact ha.lowest.union hb.lowest
  highest := by
    rw [highests_append]
    exact ha.highest.union hb.highest
  preferred x hx := by
    rw [termsOf_append]
    rcases (Terms.of_meet_preferred hx).1 with h | h
    · obtain ⟨u, hu, hux⟩ := ha.preferred x h
      exact ⟨u, List.mem_append_left _ hu, hux⟩
    · obtain ⟨u, hu, hux⟩ := hb.preferred x h
      exact ⟨u, List.mem_append_right _ hu, hux⟩
  optional := by rw [ho, ha.optional, hb.optional, List.all_append]

/-- Different results come from different dependencies. -/
theorem Merged.mixed_append {cs ds : List Dependency} {a b : Dependency} (ha : Merged cs a)
    (hb : Merged ds b) (hab : a ≠ b) : Mixed (cs ++ ds) := by
  by_contra hn
  obtain ⟨c, hc⟩ := List.exists_mem_of_ne_nil cs ha.nonempty
  obtain ⟨d, hd⟩ := List.exists_mem_of_ne_nil ds hb.nonempty
  have hca := ha.eq_of_not_mixed (fun h => hn (h.mono fun c => List.mem_append_left _)) hc
  have hdb := hb.eq_of_not_mixed (fun h => hn (h.mono fun c => List.mem_append_right _)) hd
  have hcd := uniform_of_not_mixed hn (List.mem_append_right cs hd) c (List.mem_append_left ds hc)
  exact hab (hca.symm.trans (hcd.trans hdb))

theorem Merged.of_merge {cs ds : List Dependency} {a b m : Dependency} (ha : Merged cs a)
    (hb : Merged ds b) (hm : a.merge b = .ok m) : Merged (cs ++ ds) m := by
  by_cases hab : a = b
  · subst hab
    rw [merge_self, Except.ok.injEq] at hm
    subst hm
    refine ⟨by simp [ha.nonempty], ?_, ?_⟩
    · intro c hc
      rcases List.mem_append.mp hc with hc | hc
      · exact ha.product c hc
      · exact hb.product c hc
    · have hsound : ∀ t, Tightest cs a t ∨ Tightest ds a t → t.Sound →
          Tightest (cs ++ ds) a t := by
        intro t ht hs
        have hat : a.terms = some t := ht.elim Tightest.terms Tightest.terms
        have hmeet := Terms.meet_self hs
        rw [← hmeet]
        exact (ha.covers hat).meet (hb.covers hat) (hmeet.symm ▸ hat) (Bool.and_self _).symm
      rcases ha.tightest with hall | ⟨hmix, t, ht, hs⟩
      · rcases hb.tightest with hall' | ⟨hmix, t, ht, hs⟩
        · left
          intro c hc
          exact (List.mem_append.mp hc).elim (hall c) (hall' c)
        · exact .inr ⟨hmix.mono fun c => List.mem_append_right _, t, hsound t (.inr ht) hs, hs⟩
      · exact .inr ⟨hmix.mono fun c => List.mem_append_left _, t, hsound t (.inl ht) hs, hs⟩
  · obtain ⟨s, t, hs, ht, hle, hmt, hp, hmp, hmo⟩ := merge_terms hab hm
    refine ⟨by simp [ha.nonempty], ?_, .inr ⟨ha.mixed_append hb hab, s.meet t, ?_,
      Terms.meet_sound hle⟩⟩
    · intro c hc
      rcases List.mem_append.mp hc with hc | hc
      · rw [ha.product c hc, hmp]
      · rw [hb.product c hc, ← hp, hmp]
    · exact (ha.covers hs).meet (hb.covers ht) hmt hmo

/-- Whether dependencies on one product can be merged at all: they are all equal, or every two of
them, and all together, leave some version. -/
def Compatible (cs : List Dependency) : Prop :=
  ¬ Mixed cs ∨ (∀ c ∈ cs, ∃ s, c.terms = some s) ∧
    ∀ s ∈ termsOf cs, ∀ t ∈ termsOf cs, s.lowest ≤ t.highest

theorem Compatible.mono {cs ds : List Dependency} (h : Compatible ds)
    (hsub : ∀ c ∈ cs, c ∈ ds) : Compatible cs := by
  have hterms := termsOf_mono hsub
  rcases h with hn | ⟨hcomp, hwin⟩
  · exact .inl fun hm => hn (hm.mono hsub)
  · exact .inr ⟨fun c hc => hcomp c (hsub c hc),
      fun s hs t ht => hwin s (hterms s hs) t (hterms t ht)⟩

theorem Merged.compatible {cs : List Dependency} {m : Dependency} (h : Merged cs m) :
    Compatible cs := by
  rcases h.tightest with hall | ⟨_, t, ht, hs⟩
  · exact .inl (not_mixed_of_uniform hall)
  · refine .inr ⟨ht.computable, ?_⟩
    intro s hs' u hu
    calc s.lowest ≤ t.lowest := ht.lowest.2 ⟨s, hs', rfl⟩
      _ ≤ t.highest := hs.window
      _ ≤ u.highest := ht.highest.2 ⟨u, hu, rfl⟩

theorem Merged.exists_terms {cs : List Dependency} {m : Dependency} (h : Merged cs m)
    (hc : ∀ c ∈ cs, ∃ s, c.terms = some s) : ∃ t, m.terms = some t := by
  rcases h.tightest with hall | ⟨_, t, ht, _⟩
  · obtain ⟨c, hmem⟩ := List.exists_mem_of_ne_nil cs h.nonempty
    exact hall c hmem ▸ hc c hmem
  · exact ⟨t, ht.terms⟩

theorem Tightest.lowest_le_highest {cs ds : List Dependency} {a b : Dependency} {s t : Terms}
    (ha : Tightest cs a s) (hb : Tightest ds b t)
    (h : ∀ u ∈ termsOf cs, ∀ v ∈ termsOf ds, u.lowest ≤ v.highest) : s.lowest ≤ t.highest := by
  obtain ⟨u, hu, hus⟩ := ha.lowest.1
  obtain ⟨v, hv, hvt⟩ := hb.highest.1
  exact hus ▸ hvt ▸ h u hu v hv

/-- What two lists merge to can be merged further if the lists together are compatible. -/
theorem Merged.exists_merge {cs ds : List Dependency} {a b : Dependency} (ha : Merged cs a)
    (hb : Merged ds b) (hp : a.product = b.product) (hc : Compatible (cs ++ ds)) :
    ∃ m, a.merge b = .ok m := by
  by_cases hab : a = b
  · exact ⟨a, hab ▸ merge_self a⟩
  · rcases hc with hn | ⟨hcomp, hwin⟩
    · exact absurd (ha.mixed_append hb hab) hn
    · obtain ⟨s, hs⟩ := ha.exists_terms fun c hc => hcomp c (List.mem_append_left _ hc)
      obtain ⟨t, ht⟩ := hb.exists_terms fun c hc => hcomp c (List.mem_append_right _ hc)
      have hcs := ha.covers hs
      have hds := hb.covers ht
      have left := termsOf_mono fun c (hc : c ∈ cs) => List.mem_append_left ds hc
      have right := termsOf_mono fun c (hc : c ∈ ds) => List.mem_append_right cs hc
      refine Dependency.exists_merge hp hs ht (le_min (max_le ?_ ?_) (max_le ?_ ?_))
      · exact hcs.lowest_le_highest hcs fun u hu v hv => hwin u (left u hu) v (left v hv)
      · exact hds.lowest_le_highest hcs fun u hu v hv => hwin u (right u hu) v (left v hv)
      · exact hcs.lowest_le_highest hds fun u hu v hv => hwin u (left u hu) v (right v hv)
      · exact hds.lowest_le_highest hds fun u hu v hv => hwin u (right u hu) v (right v hv)

end ProductLock.Dependency
