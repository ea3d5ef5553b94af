import ProductLock.Proofs.Dependency.Merge
import ProductLock.Proofs.Version.Fault

namespace ProductLock

open Version

/-- What is left of a failure without the data that it carries. -/
inductive Failure.Kind where
  | version
  | id
  | value
  | wrongType
  | notText
  | marks
  | selfDependency
  | duplicateDeclaration
  | ignoredConflict
  | optionalConflict
  | rangeConflict
  | reservedExtension
  | lockfile (state : LockfileState)
  | lockfileLine
  | config
  | missingFile
  | existingFile
  | directory
  | notDirectory
  | system
deriving DecidableEq, Repr

/-- Failures that have no kind of their own are wrong values, or faults of the system. -/
def Failure.kind : Failure → Failure.Kind
  | .version .. => .version
  | .id (.part ..) => .id
  | .id (.malformed _) | .digits _ | .unknownChoice .. | .differentProducts .. | .scalar _
  | .circular | .file .unnamable => .value
  | .wrongType => .wrongType
  | .notText => .notText
  | .marks => .marks
  | .selfDependency _ => .selfDependency
  | .duplicateDeclaration .. => .duplicateDeclaration
  | .ignoredConflict _ => .ignoredConflict
  | .optionalConflict _ => .optionalConflict
  | .rangeConflict .. => .rangeConflict
  | .reservedExtension _ => .reservedExtension
  | .lockfile state .. => .lockfile state
  | .lockfileLine .. => .lockfileLine
  | .config .. => .config
  | .file .missing => .missingFile
  | .file .exists => .existingFile
  | .file .isDirectory => .directory
  | .file .notDirectory => .notDirectory
  | .file .busy | .file (.other _) => .system

namespace Dependency

variable {fitting : Prop}

theorem computes_isGreater {s t : String} (hs : fitting → fits s = true)
    (ht : fitting → fits t = true) : Computes fitting (isGreater s t) := by
  unfold isGreater
  split
  · exact computes_ok false
  · exact (computes_compareOrderable hs ht).bind fun _ _ => computes_ok _

theorem computes_isLesserMaximum {s t : String} (hs : fitting → fits s = true)
    (ht : fitting → fits t = true) : Computes fitting (isLesserMaximum s t) := by
  unfold isLesserMaximum
  split
  · exact computes_ok false
  · exact (computes_compareMaximum hs ht).bind fun _ _ => computes_ok _

theorem computes_inWindow {minimum maximum v : String} (hmin : fitting → fits minimum = true)
    (hmax : fitting → fits maximum = true) (hv : fitting → fits v = true) :
    Computes fitting (inWindow minimum maximum v) := by
  refine (computes_compareOrderable hv hmin).bind fun _ _ => ?_
  split
  · exact computes_ok false
  · exact computes_withinMaximum hv hmax

theorem computes_keepInWindow {minimum maximum : String} {r : Option String}
    (hmin : fitting → fits minimum = true) (hmax : fitting → fits maximum = true)
    (hr : fitting → ∀ v, r = some v → fits v = true) :
    Computes fitting (keepInWindow minimum maximum r) := by
  cases r with
  | none => exact computes_ok none
  | some v =>
    exact (computes_inWindow hmin hmax fun hfit => hr hfit v rfl).bind fun _ _ => computes_ok _

theorem of_keepInWindow {minimum maximum v : String} {r : Option String}
    (h : keepInWindow minimum maximum r = .ok (some v)) : r = some v := by
  cases r with
  | none => cases h
  | some w =>
    obtain ⟨inside, _, h⟩ := bind_ok.mp h
    cases inside with
    | false => cases h
    | true => exact Except.ok.inj h

theorem computes_pickRecommended {minimum maximum : String} {r s : Option String}
    (hmin : fitting → fits minimum = true) (hmax : fitting → fits maximum = true)
    (hr : fitting → ∀ v, r = some v → fits v = true)
    (hs : fitting → ∀ v, s = some v → fits v = true) :
    Computes fitting (pickRecommended minimum maximum r s) := by
  refine (computes_keepInWindow hmin hmax hr).bind fun first hfirst => ?_
  refine (computes_keepInWindow hmin hmax hs).bind fun second hsecond => ?_
  split
  · exact computes_ok _
  · exact computes_ok _
  · exact computes_ok _
  · next v w =>
    have hv : fitting → fits v = true := fun hfit => hr hfit v (of_keepInWindow hfirst)
    have hw : fitting → fits w = true := fun hfit => hs hfit w (of_keepInWindow hsecond)
    exact (computes_isGreater hw hv).bind fun _ _ => computes_ok _

/-- Every number in the versions of a dependency is within the digit limit. -/
structure Fits (d : Dependency) : Prop where
  minimum : fits d.minimum = true
  maximum : fits d.maximum = true
  recommended : ∀ v, d.recommended = some v → fits v = true

/-- Why two dependencies are not merged: they are on different products, their windows do not meet,
or a version cannot be computed with. -/
inductive Refused (fitting : Prop) (a b : Dependency) : Failure → Prop where
  | products (hp : a.product ≠ b.product) :
      Refused fitting a b (.differentProducts a.product b.product)
  | clash {minimum maximum : String} (h : Clash a b minimum maximum) :
      Refused fitting a b (.rangeConflict a b minimum maximum)
  | fault {f : Failure} (hp : a.product = b.product) (h : Fault fitting f) : Refused fitting a b f

theorem merge_refused {a b : Dependency} {f : Failure} (ha : fitting → a.Fits)
    (hb : fitting → b.Fits) (h : a.merge b = .error f) : Refused fitting a b f := by
  unfold merge at h
  split at h
  · next hp =>
    cases h
    exact .products hp
  · next hp =>
    have hp : a.product = b.product := not_not.mp hp
    split at h
    · contradiction
    · next hne =>
      have hamin := fun hfit => (ha hfit).minimum
      have hbmin := fun hfit => (hb hfit).minimum
      have hamax := fun hfit => (ha hfit).maximum
      have hbmax := fun hfit => (hb hfit).maximum
      rcases bind_error.mp h with h | ⟨higher, hhigher, h⟩
      · exact .fault hp (computes_isGreater hbmin hamin f h)
      rcases bind_error.mp h with h | ⟨lower, hlower, h⟩
      · exact .fault hp (computes_isLesserMaximum hbmax hamax f h)
      have hmin : fitting → fits (if higher then b.minimum else a.minimum) = true := by
        cases higher
        · exact hamin
        · exact hbmin
      have hmax : fitting → fits (if lower then b.maximum else a.maximum) = true := by
        cases lower
        · exact hamax
        · exact hbmax
      rcases bind_error.mp h with h | ⟨within, hwithin, h⟩
      · exact .fault hp (computes_withinMaximum hmin hmax f h)
      cases within with
      | true =>
        rcases bind_error.mp h with h | ⟨_, _, h⟩
        · have hpick := computes_pickRecommended hmin hmax (fun hfit => (ha hfit).recommended)
            (fun hfit => (hb hfit).recommended)
          exact .fault hp (hpick f h)
        · cases h
      | false =>
        cases h
        obtain ⟨_, _, hl, hh, hle⟩ := withinMaximum_ok.mp hwithin
        obtain ⟨l, l', hal, hbl, rfl⟩ := isGreater_value hhigher hl
        obtain ⟨u, u', hau, hbu, rfl⟩ := isLesserMaximum_value hlower hh
        exact .clash ⟨hp, hne, l, l', u, u', hal, hbl, hau, hbu, hl, hh,
          not_le.mp (of_decide_eq_false hle)⟩

/-- A conflict is reported of a clash, with the two dependencies in their order, and of nothing else. -/
theorem merge_conflict_iff {a b first second : Dependency} {minimum maximum : String} :
    a.merge b = .error (.rangeConflict first second minimum maximum) ↔
      (first = a ∧ second = b) ∧ Clash a b minimum maximum := by
  constructor
  · intro h
    have hrefused : Refused False a b (.rangeConflict first second minimum maximum) :=
      merge_refused False.elim False.elim h
    cases hrefused with
    | clash h => exact ⟨⟨rfl, rfl⟩, h⟩
    | fault _ h => cases h
  · intro h
    obtain ⟨⟨rfl, rfl⟩, hclash⟩ := h
    exact merge_of_clash hclash

end Dependency

end ProductLock
