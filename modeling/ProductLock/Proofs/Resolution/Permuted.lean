import ProductLock.Proofs.Resolution.Contents

namespace ProductLock.Resolver

open Dependency

variable {r : Resolver} {declared declared' discovered : List Dependency}

/-- Where every product occurs once, what is found for a product does not depend on the order. -/
theorem lookup_perm (h : declared.Perm declared') (hn : (declared.map Dependency.product).Nodup)
    (id : ProductId) : lookup id declared = lookup id declared' := by
  cases hl : lookup id declared with
  | none =>
    have hnone : lookup id declared' = none :=
      lookup_eq_none.mpr fun d hd => lookup_eq_none.mp hl d (h.mem_iff.mpr hd)
    exact hnone.symm
  | some d =>
    obtain ⟨hd, rfl⟩ := lookup_mem hl
    have hn' : (declared'.map Dependency.product).Nodup := (h.map _).nodup_iff.mp hn
    exact (lookup_of_mem hn' (h.mem_iff.mp hd)).symm

theorem Sensible.perm (hs : r.Sensible declared) (h : declared.Perm declared') :
    r.Sensible declared' where
  admitted d hd := hs.admitted d (h.mem_iff.mpr hd)
  nodup := (h.map _).nodup_iff.mp hs.nodup

theorem Sensible.combine_perm (hs : r.Sensible declared) (h : declared.Perm declared') :
    combine declared = combine declared' := by
  funext d
  simp only [combine, lookup_perm h hs.nodup]

theorem mark_perm (r : Resolver) (h : declared.Perm declared') :
    r.mark declared = r.mark declared' := by
  have hmarked : ∀ id, r.isMarkedOptional declared id = r.isMarkedOptional declared' id := by
    intro id
    rw [Bool.eq_iff_iff, isMarkedOptional_iff, isMarkedOptional_iff]
    simp only [h.mem_iff]
  funext d
  simp only [mark, hmarked]

theorem Entry.perm {m : Dependency} (hm : r.Entry declared discovered m)
    (h : declared.Perm declared') : r.Entry declared' discovered m := by
  cases hm with
  | declared hd hnone => exact .declared (h.mem_iff.mp hd) hnone
  | discovered hnone hforeign hheeded hm =>
    have hon : (on m.product declared').Perm (on m.product declared) := h.symm.filter _
    rw [hnone] at hon
    exact .discovered hon.eq_nil hforeign hheeded hm
  | both hd hf hm => exact .both (h.mem_iff.mp hd) hf hm

/-- The order of the declarations is lost on the report, which has an order of its own. -/
theorem Resolved.report_perm {report report' : Report} (hr : r.Resolved declared discovered report)
    (hr' : r.Resolved declared' discovered report') (h : declared.Perm declared') :
    report = report' := by
  have hentry : ∀ m, r.Entry declared discovered m ↔ r.Entry declared' discovered m :=
    fun m => ⟨fun hm => hm.perm h, fun hm => hm.perm h.symm⟩
  apply Report.ext_of_mem hr.nodup hr'.nodup
  intro e
  rw [hr.entries, hr'.entries, mark_perm r h]
  simp only [hentry]

/-- What was discovered is gone through in its own order, so that neither the advisories nor the
first failure tell how the declarations were ordered. -/
theorem Sensible.same_outcome (hs : r.Sensible declared) (h : declared.Perm declared') :
    r.resolve declared discovered = r.resolve declared' discovered := by
  have hchecked' := checkAllDeclared_sensible.mpr (hs.perm h)
  cases hres : r.resolve declared discovered with
  | ok res =>
    obtain ⟨_, gathered, hg, combined, hc, rfl⟩ := resolve_ok.mp hres
    rw [hs.combine_perm h] at hc
    have hres' := resolve_ok.mpr ⟨hchecked', gathered, hg, combined, hc, rfl⟩
    have hreport := (resolve_resolved hres).report_perm (resolve_resolved hres') h
    dsimp only at hreport
    rw [hres', hreport]
  | error f =>
    rcases resolve_eq_error.mp hres with hchecked | ⟨_, hlater⟩
    · rw [checkAllDeclared_sensible.mpr hs] at hchecked
      contradiction
    · rw [hs.combine_perm h] at hlater
      exact (resolve_eq_error.mpr (.inr ⟨hchecked', hlater⟩)).symm

/-- The order of the declarations does not matter, except for the fault that is reported of those
that are not accepted. -/
theorem resolve_perm (r : Resolver) (discovered : List Dependency) (h : declared.Perm declared') :
    ((∃ f, checkAllDeclared r [] declared = .error f ∧ r.resolve declared discovered = .error f) ∧
      ∃ f, checkAllDeclared r [] declared' = .error f ∧
        r.resolve declared' discovered = .error f) ∨
    (checkAllDeclared r [] declared = .ok () ∧ checkAllDeclared r [] declared' = .ok () ∧
      r.resolve declared discovered = r.resolve declared' discovered) := by
  cases hchecked : checkAllDeclared r [] declared with
  | ok _ =>
    have hs := checkAllDeclared_sensible.mp hchecked
    exact .inr ⟨rfl, checkAllDeclared_sensible.mpr (hs.perm h), hs.same_outcome h⟩
  | error f =>
    cases hchecked' : checkAllDeclared r [] declared' with
    | ok _ =>
      have hs := (checkAllDeclared_sensible.mp hchecked').perm h.symm
      rw [checkAllDeclared_sensible.mpr hs] at hchecked
      contradiction
    | error f' =>
      exact .inl ⟨⟨f, rfl, resolve_eq_error.mpr (.inl hchecked)⟩, f', rfl,
        resolve_eq_error.mpr (.inl hchecked')⟩

/-- Declarations on two products, and recommendations that make both of them redundant. -/
def wary : Dependency :=
  .ofFields ⟨"com.example", "lib", "1.0.0", "3.0.0", some "2.4.0", false⟩ rfl

def keen : Dependency :=
  .ofFields ⟨"com.example", "api", "1.0.0", "1.x.x", none, true⟩ rfl

def stricter : List Dependency :=
  [.ofFields ⟨"com.example", "lib", "2.2.0", "3.0.0", some "2.4.0", false⟩ rfl,
    .ofFields ⟨"com.example", "api", "1.1.0", "1.x.x", none, false⟩ rfl]

theorem resolve_perm_swapped :
    [wary, keen].Perm [keen, wary] ∧
    ∃ res, Resolver.resolve { product := app } [wary, keen] stricter = .ok res ∧
      res.advisories.map Advisory.product = [wary.product, keen.product] ∧
      Resolver.resolve { product := app } [keen, wary] stricter = .ok res := by
  have hperm : [wary, keen].Perm [keen, wary] := .swap keen wary []
  have h : ∃ res, Resolver.resolve { product := app } [wary, keen] stricter = .ok res ∧
      res.advisories.map Advisory.product = [wary.product, keen.product] := by
    decide +kernel
  obtain ⟨res, hres, hadvisories⟩ := h
  rcases resolve_perm { product := app } stricter hperm with ⟨⟨f, _, hf⟩, _⟩ | ⟨_, _, hsame⟩
  · cases hres.symm.trans hf
  · exact ⟨hperm, res, hres, hadvisories, hsame ▸ hres⟩

/-- Of two declarations that are both refused, the first one is reported. -/
example :
    let r : Resolver := { product := app, ignored := [wary.product, keen.product] }
    r.resolve [wary, keen] [] = .error (.ignoredConflict wary) ∧
      r.resolve [keen, wary] [] = .error (.ignoredConflict keen) :=
  ⟨rfl, rfl⟩

end ProductLock.Resolver
