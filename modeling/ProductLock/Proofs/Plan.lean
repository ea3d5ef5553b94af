import ProductLock.Tree.Perform

namespace ProductLock

variable {t t' : Tree}

/-- Carrying out all of the actions leads from one tree to another. -/
def Tree.Carries (t : Tree) (as : List Action) (t' : Tree) : Prop :=
  ∃ done, t.performAll as = (t', done, none)

namespace Tree

theorem carries_nil : t.Carries [] t' ↔ t' = t := by
  simp [Carries, performAll, eq_comm]

theorem carries_cons {a : Action} {as : List Action} : t.Carries (a :: as) t' ↔
    ∃ t₁, a.perform t = (t₁, .ok ()) ∧ t₁.Carries as t' := by
  unfold Carries
  rw [performAll]
  obtain ⟨t₁, result⟩ := a.perform t
  cases result with
  | error fault => simp
  | ok u =>
    rcases h : t₁.performAll as with ⟨t₂, done, fault⟩
    simp [h]

theorem carries_append {as bs : List Action} : t.Carries (as ++ bs) t' ↔
    ∃ t₁, t.Carries as t₁ ∧ t₁.Carries bs t' := by
  induction as generalizing t with
  | nil => simp [carries_nil]
  | cons a as ih =>
    simp only [List.cons_append, carries_cons, ih]
    constructor
    · intro h
      obtain ⟨t₁, ha, t₂, has, hbs⟩ := h
      exact ⟨t₂, ⟨t₁, ha, has⟩, hbs⟩
    · intro h
      obtain ⟨t₂, ⟨t₁, ha, has⟩, hbs⟩ := h
      exact ⟨t₁, ha, t₂, has, hbs⟩

/-- One of the actions fails, when those before it have led to another tree. -/
def Stops (t : Tree) (as : List Action) (t' : Tree) (fault : FileFault) : Prop :=
  ∃ done, t.performAll as = (t', done, some fault)

variable {fault : FileFault}

theorem not_stops_nil : ¬ t.Stops [] t' fault := by
  simp [Stops, performAll]

theorem stops_cons {a : Action} {as : List Action} : t.Stops (a :: as) t' fault ↔
    a.perform t = (t', .error fault) ∨ ∃ t₁, a.perform t = (t₁, .ok ()) ∧ t₁.Stops as t' fault := by
  unfold Stops
  rw [performAll]
  obtain ⟨t₁, result⟩ := a.perform t
  cases result with
  | error fault' => simp
  | ok u =>
    rcases h : t₁.performAll as with ⟨t₂, done, fault'⟩
    simp [h]

theorem stops_append {as bs : List Action} : t.Stops (as ++ bs) t' fault ↔
    t.Stops as t' fault ∨ ∃ t₁, t.Carries as t₁ ∧ t₁.Stops bs t' fault := by
  induction as generalizing t with
  | nil => simp [not_stops_nil, carries_nil]
  | cons a as ih =>
    simp only [List.cons_append, stops_cons, carries_cons, ih]
    constructor
    · rintro (ha | ⟨t₁, ha, has | ⟨t₂, has, hbs⟩⟩)
      · exact .inl (.inl ha)
      · exact .inl (.inr ⟨t₁, ha, has⟩)
      · exact .inr ⟨t₂, ⟨t₁, ha, has⟩, hbs⟩
    · rintro ((ha | ⟨t₁, ha, has⟩) | ⟨t₂, ⟨t₁, ha, has⟩, hbs⟩)
      · exact .inl ha
      · exact .inr ⟨t₁, ha, .inl has⟩
      · exact .inr ⟨t₁, ha, .inr ⟨t₂, has, hbs⟩⟩

end Tree

/-- Notes and lines on the screen leave no trace in the tree. -/
def Action.IsQuiet : Action → Prop
  | .note _ | .say _ => True
  | .write _ _ | .delete _ => False

theorem Action.IsQuiet.perform {a : Action} (h : a.IsQuiet) : a.perform t = (t, .ok ()) := by
  cases a with
  | note n => rfl
  | say line => rfl
  | write path contents => contradiction
  | delete path => contradiction

theorem Tree.carries_quiet {as : List Action} (h : ∀ a ∈ as, a.IsQuiet) :
    t.Carries as t' ↔ t' = t := by
  induction as generalizing t with
  | nil => exact carries_nil
  | cons a as ih =>
    obtain ⟨ha, has⟩ := List.forall_mem_cons.mp h
    rw [carries_cons, ha.perform]
    simp [ih has]

theorem Tree.not_stops_quiet {as : List Action} {fault : FileFault} (h : ∀ a ∈ as, a.IsQuiet) :
    ¬ t.Stops as t' fault := by
  induction as generalizing t with
  | nil => exact not_stops_nil
  | cons a as ih =>
    obtain ⟨ha, has⟩ := List.forall_mem_cons.mp h
    rw [stops_cons, ha.perform]
    simp [ih has]

namespace Plan

variable {α β : Type} {p : Plan α} {a : α}

/-- On a tree a plan succeeds, with a tree and a result. -/
structure Yields (t : Tree) (p : Plan α) (t' : Tree) (a : α) : Prop where
  carries : t.Carries p.actions t'
  result : p.result = .ok a

theorem bind_eq (p : Plan α) (next : α → Plan β) : p >>= next = p.andThen next :=
  rfl

theorem andThen_pure (p : Plan α) : p.andThen pure = p := by
  obtain ⟨actions, result⟩ := p
  cases result with
  | error f => rfl
  | ok a => exact congrArg (Plan.mk · (.ok a)) (List.append_nil actions)

theorem andThen_assoc {γ : Type} (p : Plan α) (next : α → Plan β) (last : β → Plan γ) :
    (p.andThen next).andThen last = p.andThen fun a => (next a).andThen last := by
  simp only [andThen]
  cases p.result with
  | error f => rfl
  | ok a =>
    dsimp only
    cases (next a).result with
    | error f => rfl
    | ok b => simp only [List.append_assoc]

instance : LawfulMonad Plan :=
  LawfulMonad.mk' Plan andThen_pure (fun _ _ => rfl) andThen_assoc

theorem yields_bind {next : α → Plan β} {b : β} : Yields t (p >>= next) t' b ↔
    ∃ t₁ a, Yields t p t₁ a ∧ Yields t₁ (next a) t' b := by
  rw [bind_eq, andThen]
  constructor
  · intro h
    obtain ⟨hcarries, hresult⟩ := h
    cases hp : p.result with
    | error f =>
      rw [hp] at hresult
      contradiction
    | ok a =>
      rw [hp] at hcarries hresult
      obtain ⟨t₁, hfirst, hrest⟩ := Tree.carries_append.mp hcarries
      exact ⟨t₁, a, ⟨hfirst, hp⟩, ⟨hrest, hresult⟩⟩
  · intro h
    obtain ⟨t₁, a, ⟨hfirst, hp⟩, hrest, hresult⟩ := h
    rw [hp]
    exact ⟨Tree.carries_append.mpr ⟨t₁, hfirst, hrest⟩, hresult⟩

theorem result_bind {next : α → Plan β} {b : β} : (p >>= next).result = .ok b ↔
    ∃ a, p.result = .ok a ∧ (next a).result = .ok b := by
  rw [bind_eq, andThen]
  cases p.result <;> simp

theorem result_bind_error {next : α → Plan β} {f : Failure} : (p >>= next).result = .error f ↔
    p.result = .error f ∨ ∃ a, p.result = .ok a ∧ (next a).result = .error f := by
  rw [bind_eq, andThen]
  cases p.result <;> simp

theorem yields_pure {b : α} : Yields t (pure b) t' a ↔ t' = t ∧ b = a := by
  constructor
  · intro h
    exact ⟨Tree.carries_nil.mp h.carries, Except.ok.inj h.result⟩
  · intro h
    obtain ⟨rfl, rfl⟩ := h
    exact ⟨Tree.carries_nil.mpr rfl, rfl⟩

theorem yields_ofResult {r : Except Failure α} :
    Yields t (ofResult r) t' a ↔ t' = t ∧ r = .ok a := by
  constructor
  · intro h
    exact ⟨Tree.carries_nil.mp h.carries, h.result⟩
  · intro h
    obtain ⟨rfl, hr⟩ := h
    exact ⟨Tree.carries_nil.mpr rfl, hr⟩

theorem yields_act {action : Action} {u : Unit} :
    Yields t (act action) t' u ↔ action.perform t = (t', .ok ()) := by
  constructor
  · intro h
    obtain ⟨t₁, hstep, hnil⟩ := Tree.carries_cons.mp h.carries
    rw [Tree.carries_nil.mp hnil]
    exact hstep
  · intro h
    exact ⟨Tree.carries_cons.mpr ⟨t', h, Tree.carries_nil.mpr rfl⟩, rfl⟩

/-- On a tree a plan fails: one of its actions does, or all succeed and it ends with a failure of
its own. -/
inductive Fails (t : Tree) (p : Plan α) (t' : Tree) : Failure → Prop
  | action {fault : FileFault} (h : t.Stops p.actions t' fault) : Fails t p t' (.file fault)
  | result {f : Failure} (hcarries : t.Carries p.actions t') (h : p.result = .error f) :
      Fails t p t' f

theorem fails_bind {next : α → Plan β} {f : Failure} : Fails t (p >>= next) t' f ↔
    Fails t p t' f ∨ ∃ t₁ a, Yields t p t₁ a ∧ Fails t₁ (next a) t' f := by
  rw [bind_eq, andThen]
  cases hp : p.result with
  | error g =>
    constructor
    · rintro (hstops | ⟨hcarries, hresult⟩)
      · exact .inl (.action hstops)
      · obtain rfl := Except.error.inj hresult
        exact .inl (.result hcarries hp)
    · rintro ((hstops | ⟨hcarries, hresult⟩) | ⟨_, a, ⟨_, hresult⟩, _⟩)
      · exact .action hstops
      · obtain rfl := Except.error.inj (hp.symm.trans hresult)
        exact .result hcarries rfl
      · cases hp.symm.trans hresult
  | ok a =>
    constructor
    · rintro (hstops | ⟨hcarries, hresult⟩)
      · rcases Tree.stops_append.mp hstops with hfirst | ⟨t₁, hfirst, hrest⟩
        · exact .inl (.action hfirst)
        · exact .inr ⟨t₁, a, ⟨hfirst, hp⟩, .action hrest⟩
      · obtain ⟨t₁, hfirst, hrest⟩ := Tree.carries_append.mp hcarries
        exact .inr ⟨t₁, a, ⟨hfirst, hp⟩, .result hrest hresult⟩
    · rintro ((hfirst | ⟨_, hresult⟩) | ⟨t₁, b, ⟨hfirst, hresult⟩, hrest⟩)
      · exact .action (Tree.stops_append.mpr (.inl hfirst))
      · cases hp.symm.trans hresult
      · cases hp.symm.trans hresult
        rcases hrest with hrest | ⟨hrest, hresult⟩
        · exact .action (Tree.stops_append.mpr (.inr ⟨t₁, hfirst, hrest⟩))
        · exact .result (Tree.carries_append.mpr ⟨t₁, hfirst, hrest⟩) hresult

theorem fails_act {action : Action} {f : Failure} : Fails t (act action) t' f ↔
    ∃ fault, action.perform t = (t', .error fault) ∧ f = .file fault := by
  constructor
  · rintro (hstops | ⟨_, hresult⟩)
    · rcases Tree.stops_cons.mp hstops with hstep | ⟨_, _, hnil⟩
      · exact ⟨_, hstep, rfl⟩
      · exact absurd hnil Tree.not_stops_nil
    · cases hresult
  · rintro ⟨fault, hstep, rfl⟩
    exact .action (Tree.stops_cons.mpr (.inl hstep))

/-- A plan that only notes and says things. -/
def IsQuiet (p : Plan α) : Prop :=
  ∀ a ∈ p.actions, a.IsQuiet

theorem IsQuiet.yields (h : p.IsQuiet) : Yields t p t' a ↔ t' = t ∧ p.result = .ok a := by
  constructor
  · intro hy
    exact ⟨(Tree.carries_quiet h).mp hy.carries, hy.result⟩
  · intro hy
    exact ⟨(Tree.carries_quiet h).mpr hy.1, hy.2⟩

theorem IsQuiet.fails {f : Failure} (h : p.IsQuiet) :
    Fails t p t' f ↔ t' = t ∧ p.result = .error f := by
  constructor
  · rintro (hstops | ⟨hcarries, hresult⟩)
    · exact absurd hstops (Tree.not_stops_quiet h)
    · exact ⟨(Tree.carries_quiet h).mp hcarries, hresult⟩
  · intro hf
    exact .result ((Tree.carries_quiet h).mpr hf.1) hf.2

theorem IsQuiet.bind {next : α → Plan β} (h : p.IsQuiet) (hnext : ∀ a, (next a).IsQuiet) :
    (p >>= next).IsQuiet := by
  rw [bind_eq, andThen]
  cases p.result with
  | error f => exact h
  | ok a =>
    intro action haction
    rcases List.mem_append.mp haction with haction | haction
    · exact h action haction
    · exact hnext a action haction

theorem isQuiet_pure (a : α) : (pure a : Plan α).IsQuiet :=
  fun _ h => absurd h List.not_mem_nil

theorem isQuiet_ofResult (r : Except Failure α) : (ofResult r).IsQuiet :=
  fun _ h => absurd h List.not_mem_nil

theorem isQuiet_fail (f : Failure) : (fail f : Plan α).IsQuiet :=
  fun _ h => absurd h List.not_mem_nil

theorem isQuiet_note (n : Note) : (note n).IsQuiet := by
  intro action h
  rw [List.mem_singleton.mp h]
  trivial

/-- What an action is noted as comes after it, and does not fail. -/
theorem fails_noted {action : Action} {n : Note} {f : Failure} :
    Fails t (do act action; note n) t' f ↔
      ∃ fault, action.perform t = (t', .error fault) ∧ f = .file fault := by
  rw [fails_bind, fails_act, or_iff_left]
  intro h
  obtain ⟨_, _, _, hnote⟩ := h
  cases ((isQuiet_note n).fails.mp hnote).2

end Plan

namespace Tree

variable {α : Type} {p : Plan α} {a : α}

theorem perform_of_yields (h : p.Yields t t' a) :
    (t.perform p).result = .ok a ∧ (t.perform p).tree = t' := by
  obtain ⟨⟨done, hall⟩, hresult⟩ := h
  rw [perform, hall]
  exact ⟨hresult, rfl⟩

theorem yields_of_perform (h : (t.perform p).result = .ok a) : p.Yields t (t.perform p).tree a := by
  unfold perform at h ⊢
  rcases hall : t.performAll p.actions with ⟨t₁, done, fault⟩
  rw [hall] at h
  cases fault with
  | some fault => contradiction
  | none => exact ⟨⟨done, hall⟩, h⟩

/-- Only the system can keep a plan from its result. -/
theorem perform_result (t : Tree) (p : Plan α) :
    (t.perform p).result = p.result ∨ ∃ fault, (t.perform p).result = .error (.file fault) := by
  rw [perform]
  rcases t.performAll p.actions with ⟨t₁, done, fault⟩
  cases fault with
  | none => exact .inl rfl
  | some fault => exact .inr ⟨fault, rfl⟩

theorem fails_of_perform {f : Failure} (h : (t.perform p).result = .error f) :
    p.Fails t (t.perform p).tree f := by
  unfold perform at h ⊢
  rcases hall : t.performAll p.actions with ⟨t₁, done, fault⟩
  rw [hall] at h
  cases fault with
  | some fault =>
    cases h
    exact .action ⟨done, hall⟩
  | none => exact .result ⟨done, hall⟩ h

end Tree

end ProductLock
