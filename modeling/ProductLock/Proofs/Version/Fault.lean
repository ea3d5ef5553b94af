import ProductLock.Proofs.Version.Limit

namespace ProductLock.Version

variable {α β : Type} {fitting : Prop} {s t : String}

/-- What is wrong with a version that cannot be computed with: it does not have the form asked of it
or, unless its numbers are known to be within the limit, one of them is too long. -/
inductive Fault (fitting : Prop) : Failure → Prop where
  | form (text : String) (expected : Expected) (subject : Option Subject) :
      Fault fitting (.version text expected subject)
  | length (hlong : ¬ fitting) (count : Option Nat) : Fault fitting (.digits count)

/-- Only a fault of a version can keep a computation from its result. -/
def Computes (fitting : Prop) (x : Except Failure α) : Prop :=
  ∀ f, x = .error f → Fault fitting f

theorem computes_ok (a : α) : Computes fitting (.ok a) := by
  intro f hf
  contradiction

theorem Computes.bind {x : Except Failure α} {next : α → Except Failure β}
    (hx : Computes fitting x) (hnext : ∀ a, x = .ok a → Computes fitting (next a)) :
    Computes fitting (x >>= next) := by
  intro f hf
  rcases bind_error.mp hf with hf | ⟨a, ha, hf⟩
  · exact hx f hf
  · exact hnext a ha f hf

theorem Computes.map {x : Except Failure α} (hx : Computes fitting x) (g : α → β) :
    Computes fitting (g <$> x) := by
  rw [map_eq_pure_bind]
  exact hx.bind fun a _ => computes_ok (g a)

theorem computes_withinLimit {n : Nat} (h : fitting → Numeral.fits n = true) :
    Computes fitting (withinLimit n) := by
  unfold withinLimit
  split
  · exact computes_ok n
  · next hlong =>
    intro f hf
    cases hf
    exact .length (fun hfit => hlong (h hfit)) _

theorem computes_stage {stage : Stage} (h : fitting → Numeral.fits stage.number = true) :
    Computes fitting stage.checked :=
  (computes_withinLimit h).bind fun _ _ => computes_ok stage

theorem computes_orderable {v : Orderable} (h : fitting → v.fits = true) :
    Computes fitting v.checked := by
  simp only [Orderable.fits, Bool.and_eq_true] at h
  refine (computes_withinLimit fun hfit => (h hfit).1.1.1).bind fun _ _ => ?_
  refine (computes_withinLimit fun hfit => (h hfit).1.1.2).bind fun _ _ => ?_
  refine (computes_withinLimit fun hfit => (h hfit).1.2).bind fun _ _ => ?_
  exact (computes_stage fun hfit => (h hfit).2).bind fun _ _ => computes_ok _

theorem computes_component {k : Component} (h : fitting → k.fits = true) :
    Computes fitting k.checked := by
  cases k with
  | any => exact computes_ok _
  | number n => exact (computes_withinLimit h).map Component.number

theorem computes_matcher {m : Matcher} (h : fitting → m.fits = true) :
    Computes fitting m.checked := by
  simp only [Matcher.fits, Bool.and_eq_true] at h
  refine (computes_component fun hfit => (h hfit).1.1).bind fun _ _ => ?_
  refine (computes_component fun hfit => (h hfit).1.2).bind fun _ _ => ?_
  exact (computes_component fun hfit => (h hfit).2).bind fun _ _ => computes_ok _

theorem computes_key (hs : fitting → fits s = true) : Computes fitting (key s) := by
  unfold key
  split
  · next v hv => exact computes_orderable fun hfit => orderable_fits (hs hfit) hv
  · intro f hf
    cases hf
    exact .form ..

theorem computes_bound (hs : fitting → fits s = true) : Computes fitting (bound s) := by
  unfold bound
  split
  · next v hv => exact (computes_orderable fun hfit => orderable_fits (hs hfit) hv).map _
  · next m _ hm => exact (computes_matcher fun hfit => matcher_fits (hs hfit) hm).map _
  · intro f hf
    cases hf
    exact .form ..

theorem computes_compareOrderable (hs : fitting → fits s = true) (ht : fitting → fits t = true) :
    Computes fitting (compareOrderable s t) :=
  (computes_key hs).bind fun _ _ => (computes_key ht).bind fun _ _ => computes_ok _

theorem computes_compareMaximum (hs : fitting → fits s = true) (ht : fitting → fits t = true) :
    Computes fitting (compareMaximum s t) :=
  (computes_bound hs).bind fun _ _ => (computes_bound ht).bind fun _ _ => computes_ok _

theorem computes_withinMaximum (hs : fitting → fits s = true) (ht : fitting → fits t = true) :
    Computes fitting (withinMaximum s t) :=
  (computes_key hs).bind fun _ _ => (computes_bound ht).bind fun _ _ => computes_ok _

end ProductLock.Version
