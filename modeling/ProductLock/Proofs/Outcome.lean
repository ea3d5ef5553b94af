import Mathlib.Data.List.Forall2
import ProductLock.Failure

namespace ProductLock

theorem bind_ok {x : Except ε α} {f : α → Except ε β} {b : β} :
    x >>= f = .ok b ↔ ∃ a, x = .ok a ∧ f a = .ok b := by
  cases x <;> simp [bind, Except.bind]

theorem check_ok {x : Except Failure Unit} {f : Unit → Except Failure β} {b : β} :
    x >>= f = .ok b ↔ x = .ok () ∧ f () = .ok b := by
  cases x <;> simp [bind, Except.bind]

theorem bind_error {x : Except Failure α} {f : α → Except Failure β} {e : Failure} :
    x >>= f = .error e ↔ x = .error e ∨ ∃ a, x = .ok a ∧ f a = .error e := by
  cases x <;> simp [bind, Except.bind]

theorem bind_pure_error {f : α → β} {x : Except ε α} {e : ε} :
    (x >>= fun a => pure (f a)) = .error e ↔ x = .error e := by
  cases x <;> simp [bind, Except.bind, pure, Except.pure]

theorem pure_ok (a : α) : (pure a : Except ε α) = .ok a :=
  rfl

/-- A guard in front of what comes next. -/
theorem guard_ok {p : Prop} [Decidable p] {e : Failure} {x : Except Failure β} {b : β} :
    (if p then throw e >>= fun _ : Unit => x else x) = .ok b ↔ ¬ p ∧ x = .ok b := by
  by_cases hp : p <;> simp [hp, throw, throwThe, MonadExceptOf.throw, bind, Except.bind]

theorem last_guard_ok {p : Prop} [Decidable p] {e : Failure} {u : Unit} :
    (if p then throw e else pure ()) = (.ok u : Except Failure Unit) ↔ ¬ p := by
  by_cases hp : p <;> simp [hp, throw, throwThe, MonadExceptOf.throw, pure, Except.pure]

theorem map_ok {f : α → β} {x : Except ε α} {b : β} :
    f <$> x = .ok b ↔ ∃ a, x = .ok a ∧ f a = b := by
  cases x <;> simp [Functor.map, Except.map]

theorem map_error {f : α → β} {x : Except ε α} {e : ε} : x.map f = .error e ↔ x = .error e := by
  cases x <;> simp [Except.map]

theorem mapError_ok {f : ε → ε'} {x : Except ε α} {a : α} : x.mapError f = .ok a ↔ x = .ok a := by
  cases x with
  | error e =>
    constructor <;> intro h <;> cases h
  | ok b =>
    constructor <;> intro h <;> cases h <;> rfl

theorem mapError_error {f : ε → ε'} {x : Except ε α} {e' : ε'} :
    x.mapError f = .error e' ↔ ∃ e, x = .error e ∧ f e = e' := by
  cases x <;> simp [Except.mapError]

theorem toOption_eq_some {x : Except Failure α} {a : α} : x.toOption = some a ↔ x = .ok a := by
  cases x <;> simp [Except.toOption]

/-- What an outcome holds is decided by computing it. -/
instance decidableExistsOk {x : Except ε α} {p : α → Prop} [DecidablePred p] :
    Decidable (∃ a, x = .ok a ∧ p a) :=
  match x with
  | .ok a => decidable_of_iff (p a) (by simp)
  | .error _ => isFalse (by simp)

instance decidableExistsError {x : Except ε α} {p : ε → Prop} [DecidablePred p] :
    Decidable (∃ e, x = .error e ∧ p e) :=
  match x with
  | .ok _ => isFalse (by simp)
  | .error e => decidable_of_iff (p e) (by simp)

theorem mapM_cons_ok {f : α → Except Failure β} {x : α} {xs : List α} {ys : List β} :
    (x :: xs).mapM f = .ok ys ↔ ∃ y, f x = .ok y ∧ ∃ rest, xs.mapM f = .ok rest ∧ y :: rest = ys := by
  simp only [List.mapM_cons, bind_ok, pure_ok, Except.ok.injEq]

theorem exists_mapM {f : α → Except Failure β} {xs : List α} :
    (∃ ys, xs.mapM f = .ok ys) ↔ ∀ x ∈ xs, ∃ y, f x = .ok y := by
  induction xs with
  | nil => simp [pure_ok]
  | cons x xs ih =>
    simp only [mapM_cons_ok, List.forall_mem_cons, ← ih]
    constructor
    · intro h
      obtain ⟨ys, y, hy, rest, hrest, _⟩ := h
      exact ⟨⟨y, hy⟩, rest, hrest⟩
    · intro h
      obtain ⟨⟨y, hy⟩, rest, hrest⟩ := h
      exact ⟨y :: rest, y, hy, rest, hrest, rfl⟩

theorem mem_mapM {f : α → Except Failure β} {xs : List α} {ys : List β} (h : xs.mapM f = .ok ys)
    {y : β} : y ∈ ys ↔ ∃ x ∈ xs, f x = .ok y := by
  induction xs generalizing ys with
  | nil =>
    cases h
    simp
  | cons x xs ih =>
    obtain ⟨z, hz, rest, hrest, rfl⟩ := mapM_cons_ok.mp h
    simp only [List.mem_cons, ih hrest, exists_eq_or_imp, hz, Except.ok.injEq]
    exact or_congr_left eq_comm

/-- The first of the elements that stand out is the head, or is one behind a head that does not. -/
theorem exists_first_cons {P : α → Prop} {Q : Nat → α → Prop} {head : α} {xs : List α} :
    (∃ before x after, head :: xs = before ++ x :: after ∧ (∀ y ∈ before, P y) ∧
      Q before.length x) ↔
    Q 0 head ∨ P head ∧ ∃ before x after, xs = before ++ x :: after ∧ (∀ y ∈ before, P y) ∧
      Q (before.length + 1) x := by
  constructor
  · rintro ⟨before, x, after, hxs, hbefore, hx⟩
    cases before with
    | nil =>
      obtain ⟨rfl, rfl⟩ := List.cons.inj hxs
      exact .inl hx
    | cons first before =>
      obtain ⟨rfl, rfl⟩ := List.cons.inj hxs
      obtain ⟨hhead, hbefore⟩ := List.forall_mem_cons.mp hbefore
      exact .inr ⟨hhead, before, x, after, rfl, hbefore, hx⟩
  · rintro (hhead | ⟨hhead, before, x, after, rfl, hbefore, hx⟩)
    · exact ⟨[], head, xs, rfl, List.forall_mem_nil P, hhead⟩
    · exact ⟨head :: before, x, after, rfl, List.forall_mem_cons.mpr ⟨hhead, hbefore⟩, hx⟩

/-- The whole fails as the first of its steps that fails does. -/
theorem mapM_error {f : α → Except Failure β} {xs : List α} {e : Failure} :
    xs.mapM f = .error e ↔ ∃ before x after, xs = before ++ x :: after ∧
      (∀ y ∈ before, ∃ b, f y = .ok b) ∧ f x = .error e := by
  induction xs with
  | nil => simp [pure_ok]
  | cons head xs ih =>
    refine Iff.trans ?_ (exists_first_cons (Q := fun _ x => f x = .error e)).symm
    simp only [List.mapM_cons, bind_error, ih, pure_ok, reduceCtorEq, and_false, exists_false,
      or_false, exists_and_right]

/-- What every step keeps, the whole keeps in its order. -/
theorem map_mapM {f : α → Except Failure β} {g : α → γ} {k : β → γ} {xs : List α} {ys : List β}
    (h : xs.mapM f = .ok ys) (hk : ∀ x y, f x = .ok y → k y = g x) : ys.map k = xs.map g := by
  induction xs generalizing ys with
  | nil =>
    cases h
    rfl
  | cons x xs ih =>
    obtain ⟨y, hy, rest, hrest, rfl⟩ := mapM_cons_ok.mp h
    rw [List.map_cons, List.map_cons, hk x y hy, ih hrest]

/-- Where each step comes to the same up to a change of its result, so does the whole. -/
theorem mapM_of_steps {f f' : α → Except Failure β} {g : β → β} {xs : List α} {ys : List β}
    (h : xs.mapM f = .ok ys) (hstep : ∀ x ∈ xs, ∀ y ∈ ys, f x = .ok y → f' x = .ok (g y)) :
    xs.mapM f' = .ok (ys.map g) := by
  induction xs generalizing ys with
  | nil =>
    cases h
    rfl
  | cons x xs ih =>
    obtain ⟨y, hy, rest, hrest, rfl⟩ := mapM_cons_ok.mp h
    obtain ⟨hx, hxs⟩ := List.forall_mem_cons.mp hstep
    refine mapM_cons_ok.mpr ⟨g y, hx y List.mem_cons_self hy, rest.map g, ih hrest ?_, rfl⟩
    intro x hx z hz
    exact hxs x hx z (List.mem_cons_of_mem y hz)

theorem forall₂_left {R : α → β → Prop} {as : List α} {bs : List β} (h : List.Forall₂ R as bs) :
    ∀ a ∈ as, ∃ b, R a b := by
  induction h with
  | nil => nofun
  | cons hab _ ih => exact List.forall_mem_cons.mpr ⟨⟨_, hab⟩, ih⟩

theorem forall₂_and_right {R : α → β → Prop} {p : β → Prop} {as : List α} {bs : List β} :
    List.Forall₂ (fun a b => p b ∧ R a b) as bs ↔ (∀ b ∈ bs, p b) ∧ List.Forall₂ R as bs := by
  have hflip := List.forall₂_and_left (R := flip R) (p := p) bs as
  constructor
  · intro h
    obtain ⟨hall, hrest⟩ := hflip.mp h.flip
    exact ⟨hall, hrest.flip⟩
  · rintro ⟨hall, hrest⟩
    exact (hflip.mpr ⟨hall, hrest.flip⟩).flip

end ProductLock
