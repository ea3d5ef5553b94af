import Mathlib.Data.Set.Finite.Lemmas
import ProductLock.Proofs.Dependency.Settled

namespace ProductLock.Dependency

open Version

theorem exists_least_stray {cs : List Dependency} {p : Terms} {w : Bound} (h : Stray cs p w) :
    ∃ q z, Stray cs q z ∧ ∀ q' z', Stray cs q' z' → z ≤ z' := by
  have hfinite : {q | ∃ z, Stray cs q z}.Finite := by
    apply (List.finite_toSet (termsOf cs)).subset
    intro q hq
    obtain ⟨z, hz⟩ := hq
    exact hz.mem
  obtain ⟨q, ⟨z, hz⟩, hmin⟩ := Set.exists_min_image _ Terms.preferred hfinite ⟨p, w, h⟩
  refine ⟨q, z, hz, ?_⟩
  intro q' z' hz'
  have hle := hmin q' ⟨z', hz'⟩
  rw [hz.preferred, hz'.preferred] at hle
  exact WithBot.coe_le_coe.mp hle

/-- The window of a dependency ends below a version. -/
def below (z : Bound) (d : Dependency) : Bool :=
  d.terms.any fun s => decide (s.highest < z)

theorem below_of_terms {z : Bound} {d : Dependency} {s : Terms} (h : d.terms = some s) :
    below z d = true ↔ s.highest < z := by
  simp [below, h]

theorem Stray.mixed {cs : List Dependency} {p : Terms} {w : Bound} (h : Stray cs p w) :
    Mixed cs := by
  obtain ⟨t, ht, hw⟩ := h.excluded
  obtain ⟨c, hc, hcp⟩ := mem_termsOf.mp h.mem
  obtain ⟨d, hd, hdt⟩ := mem_termsOf.mp ht
  refine ⟨c, hc, d, hd, ?_⟩
  intro hcd
  rw [hcd, hdt, Option.some.injEq] at hcp
  exact absurd h.inside (not_le.mpr (hcp ▸ hw))

/-- Merged last into dependencies whose windows reach up to it, a stray preference is in force. -/
theorem Folded.stray_in_force {hs : List Dependency} {d e : Dependency} {p : Terms} {z : Bound}
    (h : Folded (hs ++ [d]) e) (hne : hs ≠ []) (hd : d.terms = some p) (hp : p.preferred = z)
    (hallowed : Allowed (hs ++ [d]) z) : ∃ t, e.terms = some t ∧ z ≤ t.preferred := by
  obtain ⟨f, hf, hm⟩ := (folded_snoc hne).mp h
  by_cases hfd : f = d
  · subst hfd
    rw [merge_self, Except.ok.injEq] at hm
    subst hm
    exact ⟨p, hd, hp.ge⟩
  · obtain ⟨s, t, _, ht, _, hst, _⟩ := merge_terms hfd hm
    rw [hd, Option.some.injEq] at ht
    subst ht
    have hin := (h.merged.covers hst).allowed_iff.mp hallowed
    exact ⟨s.meet p, hst, Terms.le_meet_preferred (.inr hp) hin.1 hin.2⟩

/-- What is preferred after merging more dependencies was preferred before, or by one of them. -/
theorem preferred_of_foldlM {ls : List Dependency} {e m : Dependency} {s t : Terms} {w : Bound}
    (h : ls.foldlM merge e = .ok m) (hs : e.terms = some s) (ht : m.terms = some t)
    (hw : t.preferred = w) : s.preferred = w ∨ ∃ u ∈ termsOf ls, u.preferred = w := by
  induction ls using List.reverseRecOn generalizing m t with
  | nil =>
    cases h
    rw [hs, Option.some.injEq] at ht
    exact .inl (ht ▸ hw)
  | append_singleton ls d ih =>
    rw [List.foldlM_append] at h
    obtain ⟨f, hf, hm⟩ := bind_ok.mp h
    simp only [List.foldlM_cons, List.foldlM_nil, bind_pure] at hm
    have hleft : ∀ u, f.terms = some u → u.preferred = w →
        s.preferred = w ∨ ∃ u ∈ termsOf (ls ++ [d]), u.preferred = w := by
      intro u hu huw
      rcases ih hf hu huw with hsw | ⟨v, hv, hvw⟩
      · exact .inl hsw
      · exact .inr ⟨v, termsOf_mono (fun c hc => List.mem_append_left _ hc) v hv, hvw⟩
    by_cases hfd : f = d
    · subst hfd
      rw [merge_self, Except.ok.injEq] at hm
      subst hm
      exact hleft t ht hw
    · obtain ⟨u, v, hu, hv, _, hmt, _⟩ := merge_terms hfd hm
      rw [ht, Option.some.injEq] at hmt
      subst hmt
      rcases (Terms.of_meet_preferred hw).1 with huw | hvw
      · exact hleft u hu huw
      · refine .inr ⟨v, mem_termsOf.mpr ⟨d, ?_, hv⟩, hvw⟩
        exact List.mem_append_right _ List.mem_cons_self

/-- An order in which a preference is in force until dependencies come that rule it out. -/
def late (z : Bound) (d : Dependency) (cs : List Dependency) : List Dependency :=
  (cs.filter fun c => !below z c) ++ [d] ++ cs.filter (below z)

theorem mem_late {z : Bound} {d : Dependency} {cs : List Dependency} (hd : d ∈ cs) (c : Dependency) :
    c ∈ late z d cs ↔ c ∈ cs := by
  simp only [late, List.mem_append, List.mem_filter, List.mem_singleton, Bool.not_eq_true']
  constructor
  · intro h
    rcases h with (⟨hc, _⟩ | rfl) | ⟨hc, _⟩
    · exact hc
    · exact hd
    · exact hc
  · intro hc
    cases hb : below z c with
    | true => exact .inr ⟨hc, rfl⟩
    | false => exact .inl (.inl ⟨hc, rfl⟩)

theorem mem_early {z : Bound} {d c : Dependency} {p : Terms} {cs : List Dependency} (hd : d ∈ cs)
    (hdp : d.terms = some p) (hz : z ≤ p.highest)
    (hc : c ∈ (cs.filter fun c => !below z c) ++ [d]) : c ∈ cs ∧ below z c = false := by
  rcases List.mem_append.mp hc with hc | hc
  · simpa using hc
  · rw [List.mem_singleton.mp hc]
    refine ⟨hd, ?_⟩
    rw [← Bool.not_eq_true, below_of_terms hdp]
    exact not_lt.mpr hz

/-- Without the dependencies that rule it out, a stray preference is allowed. -/
theorem Stray.allowed_early {cs : List Dependency} {d : Dependency} {p : Terms} {z : Bound}
    (h : Stray cs p z) (hc : Compatible cs) (hd : d ∈ cs) (hdp : d.terms = some p) :
    Allowed ((cs.filter fun c => !below z c) ++ [d]) z := by
  obtain ⟨_, hwindow⟩ := hc.resolve_left (not_not_intro h.mixed)
  obtain ⟨r, hr, hrz⟩ := h.excluded
  intro s hs
  obtain ⟨c, hc, hcs⟩ := mem_termsOf.mp hs
  obtain ⟨hmem, hb⟩ := mem_early hd hdp h.inside hc
  refine ⟨(hwindow s (mem_termsOf.mpr ⟨c, hmem, hcs⟩) r hr).trans hrz.le, ?_⟩
  rw [← Bool.not_eq_true, below_of_terms hcs] at hb
  exact not_lt.mp hb

/-- In such an order only dependencies that rule the stray preference out have a say in the end. -/
theorem preferred_of_late {cs : List Dependency} {d f : Dependency} {p t : Terms} {z w : Bound}
    (h : Folded (late z d cs) f) (hstray : Stray cs p z) (hc : Compatible cs) (hd : d ∈ cs)
    (hdp : d.terms = some p) (ht : f.terms = some t) (hs : t.Sound) (hw : t.preferred = w) :
    ∃ s ∈ termsOf cs, s.highest < z ∧ s.preferred = w := by
  have hne : (cs.filter fun c => !below z c) ≠ [] := by
    obtain ⟨_, hb⟩ := mem_early hd hdp hstray.inside (List.mem_append_right _ List.mem_cons_self)
    exact List.ne_nil_of_mem (List.mem_filter.mpr ⟨hd, by simp [hb]⟩)
  obtain ⟨e, he, hfold⟩ := (folded_append (by simp)).mp h
  obtain ⟨u, hu, hzu⟩ :=
    he.stray_in_force hne hdp hstray.preferred (hstray.allowed_early hc hd hdp)
  have hwz : w < z := by
    obtain ⟨r, hr, hrz⟩ := hstray.excluded
    have hmem : r ∈ termsOf (late z d cs) := termsOf_mono (fun c hc => (mem_late hd c).mpr hc) r hr
    calc w ≤ t.highest := (hs.preferred w hw).2
      _ ≤ r.highest := (h.merged.covers ht).highest.2 ⟨r, hmem, rfl⟩
      _ < z := hrz
  rcases preferred_of_foldlM hfold hu ht hw with huw | ⟨s, hs, hsw⟩
  · rw [huw, WithBot.coe_le_coe] at hzu
    exact absurd hwz (not_lt.mpr hzu)
  · obtain ⟨c, hc, hcs⟩ := mem_termsOf.mp hs
    obtain ⟨hmem, hb⟩ := List.mem_filter.mp hc
    exact ⟨s, mem_termsOf.mpr ⟨c, hmem, hcs⟩, (below_of_terms hcs).mp hb, hsw⟩

/-- A recommendation that all windows leave open comes out on top of lower ones. -/
theorem Folded.preferred_snoc {cs : List Dependency} {f f' q : Dependency} {t t' s : Terms}
    {b : Bound} (hf : Folded cs f) (hf' : Folded (cs ++ [q]) f') (ht : f.terms = some t)
    (ht' : f'.terms = some t') (hq : q.terms = some s) (hb : s.preferred = b)
    (hallowed : Allowed (cs ++ [q]) b) (hlow : ∀ w : Bound, t.preferred = w → w < b) :
    t'.preferred = b := by
  obtain ⟨e, he, hm⟩ := (folded_snoc hf.ne_nil).mp hf'
  rw [he.unique hf] at hm
  have hne : f ≠ q := by
    intro hfq
    rw [hfq, hq, Option.some.injEq] at ht
    exact lt_irrefl b (hlow b (ht ▸ hb))
  obtain ⟨hmt, _⟩ := merge_meets hne ht hq hm
  rw [ht', Option.some.injEq] at hmt
  subst hmt
  have hin := (hf'.merged.covers ht').allowed_iff.mp hallowed
  have hge : (b : WithBot Bound) ≤ (t.meet s).preferred :=
    Terms.le_meet_preferred (.inr hb) hin.1 hin.2
  cases hw : (t.meet s).preferred with
  | bot => simp [hw] at hge
  | coe w =>
    rcases (Terms.of_meet_preferred hw).1 with htw | hsw
    · rw [hw, WithBot.coe_le_coe] at hge
      exact absurd (hlow w htw) (not_lt.mpr hge)
    · rw [← hsw, hb]

/-- From the lower recommendation up, the declaration has no say. -/
theorem Outcome.from_fold {ds cs base : List Dependency} {m f : Dependency} {t u : Terms}
    {x y v : Bound} (ho : Outcome ds base m f t u) (h : Unsettled ds cs x y)
    (hbase : ∀ d, d ∈ base ↔ d ∈ cs) (hv : u.preferred = v) (hxv : x ≤ v) : t.preferred = v := by
  obtain ⟨hallowed, hfrom⟩ := ho.source v hv
  rcases hfrom with htv | ⟨s, hs, hsv⟩
  · exact htv
  · have hallowed : Allowed (ds ++ cs) v :=
      hallowed.mono fun c hc => (mem_append_congr ds hbase c).mpr hc
    exact absurd (h.undeclared s hs v hsv hallowed) (not_lt.mpr hxv)

/-- If one fold prefers the lower recommendation and another does not, the declaration cannot make
up for it. -/
theorem Outcome.ne_of_preferred {ds cs base base' : List Dependency} {m f m' f' : Dependency}
    {t u t' u' : Terms} {x y : Bound} (ho : Outcome ds base m f t u)
    (ho' : Outcome ds base' m' f' t' u') (h : Unsettled ds cs x y)
    (hbase : ∀ d, d ∈ base ↔ d ∈ cs) (hbase' : ∀ d, d ∈ base' ↔ d ∈ cs)
    (hx : t.preferred = x ∨ t'.preferred = x) (hne : t.preferred ≠ t'.preferred) : u ≠ u' := by
  intro huu
  have hallowed (b : List Dependency) (hb : ∀ d, d ∈ b ↔ d ∈ cs) : Allowed (ds ++ b) x :=
    h.allowed_lower.mono fun c hc => (mem_append_congr ds hb c).mp hc
  have hge : (x : WithBot Bound) ≤ u.preferred := by
    rcases hx with hx | hx
    · exact ho.keeps x (.inl hx) (hallowed base hbase)
    · rw [huu]
      exact ho'.keeps x (.inl hx) (hallowed base' hbase')
  cases hv : u.preferred with
  | bot => simp [hv] at hge
  | coe v =>
    rw [hv, WithBot.coe_le_coe] at hge
    have ht := ho.from_fold h hbase hv hge
    have ht' := ho'.from_fold h hbase' (huu ▸ hv) hge
    exact hne (ht.trans ht'.symm)

/-- In the late order for the least stray preference, less than the lower recommendation comes out,
or that one itself while the upper one does not. -/
theorem Unsettled.le_of_late {ds cs : List Dependency} {d m f : Dependency} {p t u : Terms}
    {x y z w : Bound} (h : Unsettled ds cs x y) (hc : Compatible cs) (hz : Stray cs p z)
    (hmin : ∀ q z', Stray cs q z' → z ≤ z') (hd : d ∈ cs) (hdp : d.terms = some p)
    (ho : Outcome ds (late z d cs) m f t u) (hw : t.preferred = w) : w ≤ x ∧ w < y := by
  obtain ⟨s, hs, hsz, hsw⟩ := preferred_of_late ho.folded hz hc hd hdp ho.terms ho.sound hw
  have hcover := ho.folded.merged.covers ho.terms
  have hallowed : Allowed cs w :=
    (hcover.allowed_iff.mpr (ho.sound.preferred w hw)).mono fun c hc => (mem_late hd c).mpr hc
  by_contra hcon
  have hwxy : x < w ∨ y ≤ w := by
    by_contra hn
    rw [not_or, not_lt, not_le] at hn
    exact hcon hn
  obtain ⟨q, z', hq, hle⟩ := h.masked s hs w hsw hallowed hwxy
  exact absurd (hmin q z' hq) (not_le.mpr (hle.trans_lt hsz))

/-- Some dependency, merged once more at the end, changes what comes out. -/
theorem Unsettled.exists_pick {ds cs : List Dependency} {t : Terms} {x y : Bound}
    (h : Unsettled ds cs x y) (hlow : ∀ w : Bound, t.preferred = w → w ≤ x ∧ w < y) :
    ∃ q ∈ cs, ∃ s, ∃ b : Bound, q.terms = some s ∧ s.preferred = b ∧ Allowed cs b ∧
      (∀ w : Bound, t.preferred = w → w < b) ∧ (t.preferred = x ∨ b = x) := by
  by_cases htx : t.preferred = x
  · obtain ⟨s, hs, hy⟩ := h.upper
    obtain ⟨q, hq, hqs⟩ := mem_termsOf.mp hs
    exact ⟨q, hq, s, y, hqs, hy, h.allowed_upper, fun w hw => (hlow w hw).2, .inl htx⟩
  · obtain ⟨s, hs, hx⟩ := h.lower
    obtain ⟨q, hq, hqs⟩ := mem_termsOf.mp hs
    have hallowed : Allowed cs x := h.allowed_lower.mono fun c hc => List.mem_append_right _ hc
    refine ⟨q, hq, s, x, hqs, hx, hallowed, ?_, .inr rfl⟩
    intro w hw
    apply lt_of_le_of_ne (hlow w hw).1
    intro hwx
    exact htx (hwx ▸ hw)

/-- Where something is unsettled, there are two orders, one of them with a repetition, in which
something different comes out. -/
theorem Unsettled.diverges {ds cs : List Dependency} {x y : Bound} (h : Unsettled ds cs x y)
    (hc : Compatible cs) : ∃ base, (∀ d, d ∈ base ↔ d ∈ cs) ∧ ∀ m, Joined ds base m →
      ∃ q ∈ cs, ∀ n, Joined ds (base ++ [q]) n → m.terms ≠ n.terms := by
  obtain ⟨s, hs, hy⟩ := h.upper
  obtain ⟨_, _, hstray, _⟩ := h.masked s hs y hy h.allowed_upper (.inr le_rfl)
  obtain ⟨p, z, hz, hmin⟩ := exists_least_stray hstray
  obtain ⟨d, hd, hdp⟩ := mem_termsOf.mp hz.mem
  have hmem := mem_late (z := z) hd
  refine ⟨late z d cs, hmem, ?_⟩
  intro m hm
  obtain ⟨f, t, u, ho⟩ := hm.outcome (hz.mixed.mono fun c hc => (hmem c).mpr hc)
  have hlow : ∀ w : Bound, t.preferred = w → w ≤ x ∧ w < y :=
    fun w hw => h.le_of_late hc hz hmin hd hdp ho hw
  obtain ⟨q, hq, s, b, hqs, hsb, hallowed, hlower, hxb⟩ := h.exists_pick hlow
  refine ⟨q, hq, ?_⟩
  intro n hn hmn
  have hmem' : ∀ c, c ∈ late z d cs ++ [q] ↔ c ∈ cs := by
    intro c
    rw [List.mem_append, hmem c, List.mem_singleton]
    exact or_iff_left_of_imp fun hcq => hcq ▸ hq
  obtain ⟨f', t', u', ho'⟩ := hn.outcome (hz.mixed.mono fun c hc => (hmem' c).mpr hc)
  have ht' : t'.preferred = b :=
    ho.folded.preferred_snoc ho'.folded ho.terms ho'.terms hqs hsb
      (hallowed.mono fun c hc => (hmem' c).mp hc) hlower
  have hne : t.preferred ≠ t'.preferred := by
    intro htt
    exact lt_irrefl b (hlower b (htt.trans ht'))
  have hlowest : t.preferred = x ∨ t'.preferred = x := by
    rcases hxb with htx | rfl
    · exact .inl htx
    · exact .inr ht'
  refine ho.ne_of_preferred ho' h hmem hmem' hlowest hne ?_
  rw [ho.result, ho'.result, Option.some.injEq] at hmn
  exact hmn

end ProductLock.Dependency
