import ProductLock.Proofs.Dependency.Terms

namespace ProductLock.Dependency

open Version

/-- How one of two texts is chosen over the other: by what they stand for, and equal texts are not
compared at all. -/
def Chooses (value : String → Option Bound) (better : Bound → Bound → Bool) (t s : String)
    (q : Bool) : Prop :=
  (t = s ∧ q = false) ∨ (t ≠ s ∧ ∃ b a, value t = some b ∧ value s = some a ∧ better b a = q)

theorem Chooses.total {value : String → Option Bound} (better : Bound → Bound → Bool)
    {s t : String} {a b : Bound} (hs : value s = some a) (ht : value t = some b) :
    ∃ q, Chooses value better t s q := by
  by_cases h : t = s
  · exact ⟨false, .inl ⟨h, rfl⟩⟩
  · exact ⟨better b a, .inr ⟨h, b, a, ht, hs, rfl⟩⟩

theorem Chooses.value {value : String → Option Bound} {better : Bound → Bound → Bool}
    {s t : String} {q : Bool} {c : Bound} (h : Chooses value better t s q)
    (hc : value (if q then t else s) = some c) :
    ∃ a b, value s = some a ∧ value t = some b ∧ c = if better b a then b else a := by
  rcases h with ⟨rfl, rfl⟩ | ⟨_, b, a, hb, ha, rfl⟩
  · exact ⟨c, c, hc, hc, (ite_self c).symm⟩
  · refine ⟨a, b, ha, hb, ?_⟩
    cases hba : better b a <;> simp_all

theorem Chooses.exists_value {value : String → Option Bound} {better : Bound → Bound → Bool}
    {s t : String} {q : Bool} {a b : Bound} (h : Chooses value better t s q)
    (hs : value s = some a) (ht : value t = some b) :
    value (if q then t else s) = some (if better b a then b else a) := by
  have hsome : ∃ c, value (if q then t else s) = some c := by
    cases q
    · exact ⟨a, hs⟩
    · exact ⟨b, ht⟩
  obtain ⟨c, hc⟩ := hsome
  obtain ⟨a', b', ha, hb, rfl⟩ := h.value hc
  rw [hs, Option.some.injEq] at ha
  rw [ht, Option.some.injEq] at hb
  exact ha ▸ hb ▸ hc

/-- A comparison that asks for one ordering chooses by the values that it compares. -/
theorem choose_ok {compare : String → String → Except Failure Ordering}
    {value : String → Option Bound} {better : Bound → Bound → Bool} {wanted : Ordering}
    {s t : String} {q : Bool}
    (hcompare : ∀ {x}, compare s t = .ok x ↔
      ∃ a b, value s = some a ∧ value t = some b ∧ a.compare b = x)
    (hbetter : ∀ a b, better a b = (a.compare b == wanted)) :
    (if s = t then .ok false else do return (← compare s t) == wanted) = .ok q ↔
      Chooses value better s t q := by
  unfold Chooses
  by_cases h : s = t
  · simp [h, eq_comm]
  · simp only [h, if_false, false_and, false_or, ne_eq, not_false_eq_true, true_and, bind_ok,
      pure_ok, Except.ok.injEq, hcompare, hbetter]
    constructor
    · intro hx
      obtain ⟨_, ⟨a, b, ha, hb, rfl⟩, rfl⟩ := hx
      exact ⟨a, b, ha, hb, rfl⟩
    · intro hx
      obtain ⟨a, b, ha, hb, rfl⟩ := hx
      exact ⟨_, ⟨a, b, ha, hb, rfl⟩, rfl⟩

theorem isGreater_ok {s t : String} {q : Bool} :
    isGreater s t = .ok q ↔ Chooses level (fun a b => decide (b < a)) s t q := by
  apply choose_ok compareOrderable_ok
  intro a b
  rw [Bool.eq_iff_iff, decide_eq_true_iff, beq_iff_eq, Bound.lt_iff, Bound.compare_swap a b]
  cases a.compare b <;> simp

theorem isLesserMaximum_ok {s t : String} {q : Bool} :
    isLesserMaximum s t = .ok q ↔ Chooses ceiling (fun a b => decide (a < b)) s t q := by
  apply choose_ok compareMaximum_ok
  intro a b
  rw [Bool.eq_iff_iff, decide_eq_true_iff, beq_iff_eq, Bound.lt_iff]

theorem greater_eq_max (a b : Bound) : (if decide (a < b) = true then b else a) = max a b := by
  by_cases h : a < b
  · simp [h, max_eq_right h.le]
  · simp [h, max_eq_left (not_lt.mp h)]

theorem lesser_eq_min (a b : Bound) : (if decide (b < a) = true then b else a) = min a b := by
  by_cases h : b < a
  · simp [h, min_eq_right h.le]
  · simp [h, min_eq_left (not_lt.mp h)]

theorem isGreater_value {s t : String} {q : Bool} {c : Bound} (h : isGreater t s = .ok q)
    (hc : level (if q then t else s) = some c) :
    ∃ a b, level s = some a ∧ level t = some b ∧ c = max a b := by
  obtain ⟨a, b, ha, hb, rfl⟩ := (isGreater_ok.mp h).value hc
  exact ⟨a, b, ha, hb, greater_eq_max a b⟩

theorem isLesserMaximum_value {s t : String} {q : Bool} {c : Bound}
    (h : isLesserMaximum t s = .ok q) (hc : ceiling (if q then t else s) = some c) :
    ∃ a b, ceiling s = some a ∧ ceiling t = some b ∧ c = min a b := by
  obtain ⟨a, b, ha, hb, rfl⟩ := (isLesserMaximum_ok.mp h).value hc
  exact ⟨a, b, ha, hb, lesser_eq_min a b⟩

theorem inWindow_ok {minimum maximum v : String} {l h : Bound} {q : Bool}
    (hl : level minimum = some l) (hh : ceiling maximum = some h) :
    inWindow minimum maximum v = .ok q ↔
      ∃ b, level v = some b ∧ decide (l ≤ b ∧ b ≤ h) = q := by
  simp only [inWindow, bind_ok, compareOrderable_ok, hl]
  constructor
  · intro hx
    obtain ⟨_, ⟨b, _, hb, hlb, rfl⟩, hq⟩ := hx
    cases hlb
    refine ⟨b, hb, ?_⟩
    split at hq
    · next hlt =>
      cases hq
      rw [beq_iff_eq, ← Bound.lt_iff] at hlt
      simp [not_le.mpr hlt]
    · next hlt =>
      rw [beq_iff_eq, ← Bound.lt_iff, not_lt] at hlt
      obtain ⟨b', h', hb', hh', rfl⟩ := withinMaximum_ok.mp hq
      rw [hb, Option.some.injEq] at hb'
      rw [hh, Option.some.injEq] at hh'
      simp [← hb', ← hh', hlt]
  · intro hx
    obtain ⟨b, hb, rfl⟩ := hx
    refine ⟨_, ⟨b, l, hb, rfl, rfl⟩, ?_⟩
    by_cases hlt : b < l
    · rw [if_pos (beq_iff_eq.mpr (Bound.lt_iff.mp hlt))]
      simp [not_le.mpr hlt, pure_ok]
    · rw [if_neg (fun he => hlt (Bound.lt_iff.mpr (beq_iff_eq.mp he)))]
      refine withinMaximum_ok.mpr ⟨b, h, hb, hh, ?_⟩
      simp [not_lt.mp hlt]

/-- Whether a recommendation is kept shows in its preference, clipped to the window. -/
theorem keepInWindow_ok {minimum maximum : String} {l h : Bound} {r kept : Option String}
    (hl : level minimum = some l) (hh : ceiling maximum = some h) :
    keepInWindow minimum maximum r = .ok kept ↔
      ∃ p, preference r = some p ∧ kept = if Terms.clip l h p = ⊥ then none else r := by
  cases r with
  | none => simp [keepInWindow, preference, Terms.clip, eq_comm]
  | some v =>
    simp only [keepInWindow, bind_ok, inWindow_ok hl hh, pure_ok, Except.ok.injEq, preference,
      Option.map_eq_some_iff]
    have hclip (b : Bound) : (if decide (l ≤ b ∧ b ≤ h) = true then some v else none) =
        if Terms.clip l h (b : WithBot Bound) = ⊥ then none else some v := by
      by_cases hb : l ≤ b ∧ b ≤ h
      · simp [hb, Terms.clip_of_mem hb.1 hb.2]
      · have hbot : Terms.clip l h (b : WithBot Bound) = ⊥ :=
          if_neg fun hw => hb ⟨WithBot.coe_le_coe.mp hw.1, WithBot.coe_le_coe.mp hw.2⟩
        simp [hb, hbot]
    constructor
    · intro hx
      obtain ⟨_, ⟨b, hb, rfl⟩, rfl⟩ := hx
      exact ⟨b, ⟨b, hb, rfl⟩, hclip b⟩
    · intro hx
      obtain ⟨_, ⟨b, hb, rfl⟩, rfl⟩ := hx
      exact ⟨_, ⟨b, hb, rfl⟩, hclip b⟩

/-- A preference that the window keeps is that of a recommendation inside the window. -/
theorem kept_cases {l h : Bound} {r : Option String} {p : WithBot Bound}
    (hp : preference r = some p) :
    Terms.clip l h p = ⊥ ∨ ∃ v b, r = some v ∧ level v = some b ∧ Terms.clip l h p = b := by
  cases hc : Terms.clip l h p with
  | bot => exact .inl rfl
  | coe b =>
    obtain ⟨rfl, _⟩ := Terms.clip_eq_coe.mp hc
    cases r with
    | none => cases hp
    | some v =>
      obtain ⟨c, hv, he⟩ := Option.map_eq_some_iff.mp hp
      exact .inr ⟨v, b, rfl, WithBot.coe_injective he ▸ hv, rfl⟩

theorem pickRecommended_ok {minimum maximum : String} {l h : Bound} {r s : Option String}
    {pick : Pick} (hl : level minimum = some l) (hh : ceiling maximum = some h)
    (hpick : pickRecommended minimum maximum r s = .ok pick) :
    ∃ p q, preference r = some p ∧ preference s = some q ∧
      preference (pick.apply r s) = some (max (Terms.clip l h p) (Terms.clip l h q)) := by
  simp only [pickRecommended, bind_ok, keepInWindow_ok hl hh] at hpick
  obtain ⟨_, ⟨p, hp, rfl⟩, _, ⟨q, hq, rfl⟩, hpick⟩ := hpick
  refine ⟨p, q, hp, hq, ?_⟩
  rcases kept_cases (l := l) (h := h) hp with hcp | ⟨v, a, rfl, hv, hcp⟩ <;>
    rcases kept_cases (l := l) (h := h) hq with hcq | ⟨w, b, rfl, hw, hcq⟩
  · simp only [hcp, hcq, if_true, pure_ok, Except.ok.injEq] at hpick
    subst hpick
    simp [Pick.apply, preference, hcp, hcq]
  · simp only [hcp, hcq, if_true, WithBot.coe_ne_bot, if_false, pure_ok, Except.ok.injEq] at hpick
    subst hpick
    simp [Pick.apply, preference, hcp, hcq, hw]
  · simp only [hcp, hcq, if_true, WithBot.coe_ne_bot, if_false, pure_ok, Except.ok.injEq] at hpick
    subst hpick
    simp [Pick.apply, preference, hcp, hcq, hv]
  · simp only [hcp, hcq, WithBot.coe_ne_bot, if_false, bind_ok, pure_ok, Except.ok.injEq] at hpick
    obtain ⟨higher, hhigher, rfl⟩ := hpick
    have hval := (isGreater_ok.mp hhigher).exists_value hv hw
    rw [greater_eq_max] at hval
    rw [hcp, hcq, ← WithBot.coe_max]
    cases higher <;> exact congrArg (Option.map WithBot.some) hval

theorem exists_pickRecommended {minimum maximum : String} {l h : Bound} {r s : Option String}
    {p q : WithBot Bound} (hl : level minimum = some l) (hh : ceiling maximum = some h)
    (hp : preference r = some p) (hq : preference s = some q) :
    ∃ pick, pickRecommended minimum maximum r s = .ok pick := by
  have hr := (keepInWindow_ok (r := r) hl hh).mpr ⟨p, hp, rfl⟩
  have hs := (keepInWindow_ok (r := s) hl hh).mpr ⟨q, hq, rfl⟩
  unfold pickRecommended
  rcases kept_cases (l := l) (h := h) hp with hcp | ⟨v, a, rfl, hv, hcp⟩ <;>
    rcases kept_cases (l := l) (h := h) hq with hcq | ⟨w, b, rfl, hw, hcq⟩ <;>
    simp only [hcp, hcq, if_true, WithBot.coe_ne_bot, if_false] at hr hs
  · exact ⟨.neither, by rw [hr, hs]; rfl⟩
  · exact ⟨.second, by rw [hr, hs]; rfl⟩
  · exact ⟨.first, by rw [hr, hs]; rfl⟩
  · obtain ⟨higher, hhigher⟩ := Chooses.total (fun a b => decide (b < a)) hv hw
    refine ⟨if higher then .second else .first, ?_⟩
    rw [hr, hs]
    refine bind_ok.mpr ⟨_, rfl, bind_ok.mpr ⟨_, rfl, ?_⟩⟩
    exact bind_ok.mpr ⟨_, isGreater_ok.mpr hhigher, rfl⟩

/-- What two different dependencies merge to has the terms that satisfy both. -/
theorem merge_terms {a b m : Dependency} (hne : a ≠ b) (hm : a.merge b = .ok m) :
    ∃ s t, a.terms = some s ∧ b.terms = some t ∧ (s.meet t).lowest ≤ (s.meet t).highest ∧
      m.terms = some (s.meet t) ∧ a.product = b.product ∧ m.product = a.product ∧
      m.optional = (a.optional && b.optional) := by
  unfold merge at hm
  split at hm
  · contradiction
  · next hp =>
    simp only [bind_ok] at hm
    obtain ⟨higher, hhigher, lower, hlower, fits, hfits, hm⟩ := hm
    cases fits with
    | false => simp at hm
    | true =>
      obtain ⟨l, h, hl, hh, hle⟩ := withinMaximum_ok.mp hfits
      simp only [if_true, bind_ok] at hm
      obtain ⟨pick, hpick, hm⟩ := hm
      cases hm
      obtain ⟨p, q, hr, hs, hpref⟩ := pickRecommended_ok hl hh hpick
      obtain ⟨al, bl, hal, hbl, rfl⟩ := isGreater_value hhigher hl
      obtain ⟨ah, bh, hah, hbh, rfl⟩ := isLesserMaximum_value hlower hh
      exact ⟨⟨al, ah, p⟩, ⟨bl, bh, q⟩, terms_eq_some.mpr ⟨hal, hah, hr⟩,
        terms_eq_some.mpr ⟨hbl, hbh, hs⟩, of_decide_eq_true hle,
        terms_eq_some.mpr ⟨hl, hh, hpref⟩, not_not.mp hp, rfl, rfl⟩

theorem merge_meets {a b m : Dependency} {s t : Terms} (hne : a ≠ b) (hs : a.terms = some s)
    (ht : b.terms = some t) (hm : a.merge b = .ok m) : m.terms = some (s.meet t) ∧
      m.product = a.product ∧ m.optional = (a.optional && b.optional) := by
  obtain ⟨s', t', hs', ht', _, hmt, _, hmp, hmo⟩ := merge_terms hne hm
  rw [hs, Option.some.injEq] at hs'
  rw [ht, Option.some.injEq] at ht'
  subst hs' ht'
  exact ⟨hmt, hmp, hmo⟩

/-- Whatever they recommend, merging computes the greater minimum of two dependencies and the lesser
maximum. -/
theorem exists_bounds {a b : Dependency} {l l' h h' : Bound} (hal : level a.minimum = some l)
    (hbl : level b.minimum = some l') (hah : ceiling a.maximum = some h)
    (hbh : ceiling b.maximum = some h') : ∃ higher lower,
      isGreater b.minimum a.minimum = .ok higher ∧ isLesserMaximum b.maximum a.maximum = .ok lower ∧
      level (if higher then b.minimum else a.minimum) = some (max l l') ∧
      ceiling (if lower then b.maximum else a.maximum) = some (min h h') := by
  obtain ⟨higher, hhigher⟩ := Chooses.total (fun a b => decide (b < a)) hal hbl
  obtain ⟨lower, hlower⟩ := Chooses.total (fun a b => decide (a < b)) hah hbh
  have hl := hhigher.exists_value hal hbl
  have hh := hlower.exists_value hah hbh
  rw [greater_eq_max] at hl
  rw [lesser_eq_min] at hh
  exact ⟨higher, lower, isGreater_ok.mpr hhigher, isLesserMaximum_ok.mpr hlower, hl, hh⟩

theorem exists_merge {a b : Dependency} {s t : Terms} (hp : a.product = b.product)
    (hs : a.terms = some s) (ht : b.terms = some t)
    (hle : (s.meet t).lowest ≤ (s.meet t).highest) : ∃ m, a.merge b = .ok m := by
  obtain ⟨hsl, hsh, hsp⟩ := terms_eq_some.mp hs
  obtain ⟨htl, hth, htp⟩ := terms_eq_some.mp ht
  obtain ⟨higher, lower, hhigher, hlower, hl, hh⟩ := exists_bounds hsl htl hsh hth
  obtain ⟨pick, hpick⟩ := exists_pickRecommended hl hh hsp htp
  unfold merge
  rw [if_neg (not_not_intro hp)]
  split
  · exact ⟨a, rfl⟩
  · exact ⟨_, bind_ok.mpr ⟨higher, hhigher, bind_ok.mpr ⟨lower, hlower,
      bind_ok.mpr ⟨true, withinMaximum_ok.mpr ⟨_, _, hl, hh, decide_eq_true hle⟩,
        bind_ok.mpr ⟨pick, hpick, rfl⟩⟩⟩⟩⟩

/-- The greater minimum of two dependencies is beyond the lesser maximum. -/
structure Clash (a b : Dependency) (minimum maximum : String) : Prop where
  product : a.product = b.product
  differ : a ≠ b
  bounds : ∃ l l' h h', level a.minimum = some l ∧ level b.minimum = some l' ∧
    ceiling a.maximum = some h ∧ ceiling b.maximum = some h' ∧
    level minimum = some (max l l') ∧ ceiling maximum = some (min h h') ∧ min h h' < max l l'

theorem Clash.symm {a b : Dependency} {minimum maximum : String} (h : Clash a b minimum maximum) :
    Clash b a minimum maximum := by
  obtain ⟨l, l', u, u', hal, hbl, hah, hbh, hl, hh, hlt⟩ := h.bounds
  refine ⟨h.product.symm, h.differ.symm, l', l, u', u, hbl, hal, hbh, hah, ?_⟩
  rw [max_comm l', min_comm u']
  exact ⟨hl, hh, hlt⟩

theorem Clash.beyond {a b : Dependency} {minimum maximum : String} (h : Clash a b minimum maximum) :
    withinMaximum minimum maximum = .ok false := by
  obtain ⟨_, _, _, _, _, _, _, _, hl, hh, hlt⟩ := h.bounds
  exact withinMaximum_ok.mpr ⟨_, _, hl, hh, decide_eq_false (not_le.mpr hlt)⟩

/-- Different dependencies whose windows do not meet are refused with the bounds of both. -/
theorem merge_of_clash {a b : Dependency} {minimum maximum : String}
    (h : Clash a b minimum maximum) :
    a.merge b = .error (.rangeConflict a b minimum maximum) := by
  obtain ⟨_, _, _, _, hal, hbl, hah, hbh, hmin, hmax, _⟩ := h.bounds
  obtain ⟨higher, lower, hhigher, hlower, hl, hh⟩ := exists_bounds hal hbl hah hbh
  unfold merge
  rw [if_neg (not_not_intro h.product), if_neg h.differ, hhigher, hlower]
  simp only [bind, Except.bind, level_injective hl hmin, ceiling_injective hh hmax, h.beyond,
    Bool.false_eq_true, if_false]

theorem merge_self (d : Dependency) : d.merge d = .ok d := by
  simp [merge]

theorem merge_product {a b m : Dependency} (hm : a.merge b = .ok m) : m.product = a.product := by
  by_cases hab : a = b
  · rw [hab, merge_self, Except.ok.injEq] at hm
    rw [hab, hm]
  · obtain ⟨_, _, _, _, _, _, _, hp, _⟩ := merge_terms hab hm
    exact hp

theorem merge_ok_iff {a b m : Dependency} (hne : a ≠ b) : a.merge b = .ok m ↔
    ∃ s t, a.terms = some s ∧ b.terms = some t ∧ (s.meet t).lowest ≤ (s.meet t).highest ∧
      m.terms = some (s.meet t) ∧ a.product = b.product ∧ m.product = a.product ∧
      m.optional = (a.optional && b.optional) := by
  constructor
  · exact merge_terms hne
  · intro hx
    obtain ⟨s, t, hs, ht, hle, hmt, hp, hmp, hmo⟩ := hx
    obtain ⟨n, hn⟩ := exists_merge hp hs ht hle
    obtain ⟨hnt, hnp, hno⟩ := merge_meets hne hs ht hn
    rw [hn, terms_injective hnt hmt (hnp.trans hmp.symm) (hno.trans hmo.symm)]

/-- Merging in what adds nothing to a dependency decides no more than whether it is optional. -/
theorem merge_of_meet_eq {a b : Dependency} {s t : Terms} (hp : a.product = b.product)
    (hs : a.terms = some s) (ht : b.terms = some t) (hsound : s.Sound) (hmeet : s.meet t = s) :
    ∃ m, a.merge b = .ok m ∧ m.product = a.product ∧ m.terms = some s ∧
      m.optional = (a.optional && b.optional) := by
  by_cases hab : a = b
  · subst hab
    exact ⟨a, merge_self a, rfl, hs, (Bool.and_self _).symm⟩
  · obtain ⟨m, hm⟩ := exists_merge hp hs ht (by rw [hmeet]; exact hsound.window)
    obtain ⟨hmt, hmp, hmo⟩ := merge_meets hab hs ht hm
    exact ⟨m, hm, hmp, hmeet ▸ hmt, hmo⟩

end ProductLock.Dependency
