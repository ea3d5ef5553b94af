import ProductLock.Proofs.Dependency.Intersection

namespace ProductLock.Dependency

open Version

variable {a b m : Dependency}

theorem merge_swap (h : a.merge b = .ok m) : b.merge a = .ok m := by
  by_cases hab : a = b
  · subst hab
    exact h
  · obtain ⟨s, t, hs, ht, hle, hmt, hp, hmp, hmo⟩ := (merge_ok_iff hab).mp h
    refine (merge_ok_iff (Ne.symm hab)).mpr ⟨t, s, ht, hs, ?_, ?_, hp.symm, hmp.trans hp, ?_⟩
    · rwa [Terms.meet_comm]
    · rwa [Terms.meet_comm]
    · rw [hmo, Bool.and_comm]

/-- The failure of the exchanged merge may tell of another version, but is of the same kind. -/
theorem merge_error_swap {f : Failure} (ha : a.Fits) (hb : b.Fits) (h : a.merge b = .error f) :
    ∃ g, b.merge a = .error g ∧ g.kind = f.kind := by
  have hrefused : Refused True a b f := merge_refused (fun _ => ha) (fun _ => hb) h
  cases hrefused with
  | products hp => exact ⟨_, if_pos (Ne.symm hp), rfl⟩
  | clash hclash => exact ⟨_, merge_of_clash hclash.symm, rfl⟩
  | fault hp hfault =>
    cases hfault with
    | length hlong => exact absurd trivial hlong
    | form text expected subject =>
      cases hg : b.merge a with
      | ok m =>
        rw [merge_swap hg] at h
        contradiction
      | error g =>
        have hrefused : Refused True b a g := merge_refused (fun _ => hb) (fun _ => ha) hg
        cases hrefused with
        | products hne => exact absurd hp.symm hne
        | clash hclash =>
          rw [merge_of_clash hclash.symm] at h
          cases h
        | fault _ hfault =>
          cases hfault with
          | length hlong => exact absurd trivial hlong
          | form => exact ⟨_, rfl, rfl⟩

/-- It does not matter which of two dependencies is merged into which: both ways come to the same
dependency, or to the same conflict seen from the other side, and as long as all numbers are within
the limit to the same kind of failure. -/
theorem merge_commutes (a b : Dependency) :
    (∀ m, a.merge b = .ok m ↔ b.merge a = .ok m) ∧
    (∀ first second minimum maximum,
      a.merge b = .error (.rangeConflict first second minimum maximum) ↔
        b.merge a = .error (.rangeConflict second first minimum maximum)) ∧
    (a.Fits → b.Fits → ∀ kind, (∃ f, a.merge b = .error f ∧ f.kind = kind) ↔
      ∃ g, b.merge a = .error g ∧ g.kind = kind) := by
  refine ⟨fun m => ⟨merge_swap, merge_swap⟩, ?_, ?_⟩
  · intro first second minimum maximum
    rw [merge_conflict_iff, merge_conflict_iff, and_comm (a := first = a)]
    exact and_congr_right fun _ => ⟨Clash.symm, Clash.symm⟩
  · intro ha hb kind
    constructor
    · intro h
      obtain ⟨f, hf, rfl⟩ := h
      exact merge_error_swap ha hb hf
    · intro h
      obtain ⟨g, hg, rfl⟩ := h
      exact merge_error_swap hb ha hg

/-- A minimum with a leading zero and one with a free tag: each order tells of another one. -/
def padded : Dependency :=
  .ofFields ⟨"com.example", "lib", "01.0.0", "2.x.x", none, false⟩ rfl

def tagged : Dependency :=
  .ofFields ⟨"com.example", "lib", "1.0.0-snapshot", "2.x.x", none, false⟩ rfl

theorem merge_commutes_padded : padded.Fits ∧ tagged.Fits ∧
    padded.merge tagged = .error (.version "1.0.0-snapshot" .orderable none) ∧
    ∃ g, tagged.merge padded = .error g ∧ g.kind = .version := by
  have hpadded : padded.Fits := ⟨by decide +kernel, by decide +kernel, nofun⟩
  have htagged : tagged.Fits := ⟨by decide +kernel, by decide +kernel, nofun⟩
  have h : padded.merge tagged = .error (.version "1.0.0-snapshot" .orderable none) := rfl
  exact ⟨hpadded, htagged, h, ((merge_commutes padded tagged).2.2 hpadded htagged .version).mp
    ⟨_, h, rfl⟩⟩

/-- What has been merged in adds nothing when it is merged in again. -/
theorem merge_again (h : a.merge b = .ok m) : m.merge b = .ok m := by
  by_cases hab : a = b
  · subst hab
    rw [merge_self, Except.ok.injEq] at h
    subst h
    exact merge_self a
  · obtain ⟨s, t, hs, ht, hle, hmt, hp, hmp, hmo⟩ := merge_terms hab h
    obtain ⟨n, hn, hnp, hnt, hno⟩ := merge_of_meet_eq (hmp.trans hp) hmt ht
      (Terms.meet_sound hle) (Terms.meet_meet s t)
    have hnm : n.optional = m.optional := by
      rw [hno, hmo, Bool.and_assoc, Bool.and_self]
    rw [hn, terms_injective hnt hmt hnp hnm]

/-- The result of a merge absorbs both dependencies, from either side. -/
theorem merge_absorbs (h : a.merge b = .ok m) :
    m.merge a = .ok m ∧ a.merge m = .ok m ∧ m.merge b = .ok m ∧ b.merge m = .ok m := by
  have hleft : m.merge a = .ok m := merge_again (merge_swap h)
  have hright : m.merge b = .ok m := merge_again h
  exact ⟨hleft, merge_swap hleft, hright, merge_swap hright⟩

/-- The recommendation that was dropped does not come back. -/
theorem merge_absorbs_hopeful : ∃ m, hopeful.merge cautious = .ok m ∧
    m.recommended = some "1.5.0-3-gabc" ∧ m.merge hopeful = .ok m ∧ hopeful.merge m = .ok m ∧
    m.merge cautious = .ok m ∧ cautious.merge m = .ok m := by
  have h : ∃ m, hopeful.merge cautious = .ok m ∧ m.recommended = some "1.5.0-3-gabc" := by
    decide +kernel
  obtain ⟨m, hm, hrecommended⟩ := h
  exact ⟨m, hm, hrecommended, merge_absorbs hm⟩

end ProductLock.Dependency
