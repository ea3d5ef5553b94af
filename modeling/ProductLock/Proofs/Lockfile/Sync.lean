import ProductLock.Lockfile.Sync
import ProductLock.Proofs.Lockfile.RoundTrip
import ProductLock.Proofs.Outcome
import ProductLock.Proofs.Plan
import ProductLock.Proofs.Tree.Frame

namespace ProductLock.Lockfile

open ProductLock.Tree Plan

variable {t t' : Tree} {path : Path} {existing expected before after : Option String}

/-- A text that reads back from its own file as it is. -/
def Writable (s : String) : Prop :=
  Text.decode s.toUTF8 = some s

theorem writable_render {w : Workspace} {r : Report} {s : String} (h : render w r = some s) :
    Writable s := by
  by_cases hnil : r.dependencies = []
  · rw [render, if_pos hnil] at h
    contradiction
  · rw [render_of_ne_nil hnil] at h
    cases h
    exact Text.decode_toUTF8 (Text.no_return_join (unbroken_textLines w r))

theorem render_eq_none_iff {w : Workspace} {r : Report} :
    render w r = none ↔ r.dependencies = [] := by
  unfold render
  split <;> simp [*]

theorem contents_of_writable {s : String} (h : Writable s) :
    contents (.ok s.toUTF8) = .ok (some s) := by
  have hdecode : Text.decode s.toUTF8 = some s := h
  simp only [contents, hdecode]

theorem contents_some {r : Except FileFault ByteArray} {s : String} (h : contents r = .ok (some s)) :
    ∃ bytes, r = .ok bytes := by
  unfold contents at h
  split at h
  · cases h
  · cases h
  · contradiction
  · next bytes => exact ⟨bytes, rfl⟩

/-- There is a file at the lockfile's path exactly when something was found there. -/
theorem lookup_eq_none_iff (ht : t.Rooted) (hplain : path.IsPlain)
    (h : contents (t.read path) = .ok existing) :
    t.lookup path.parts = none ↔ existing = none := by
  cases existing with
  | none =>
    cases hl : t.lookup path.parts with
    | none => exact iff_of_true rfl rfl
    | some e =>
      rw [read_of_locate (locate_of_lookup ht hplain hl), hl] at h
      cases e with
      | directory => contradiction
      | file bytes =>
        simp only [contents] at h
        split at h <;> cases h
  | some s =>
    obtain ⟨bytes, hbytes⟩ := contents_some h
    rw [(read_ok ht hplain).mp hbytes]
    exact iff_of_false nofun nofun

/-- What happened to a lockfile, by what it held before and what it holds after. -/
def Outcome.between : Option String → Option String → Outcome
  | none, none => .absent
  | none, some _ => .created
  | some _, none => .deleted
  | some old, some new => if old = new then .unchanged else .updated

/-- What a check has to say where writing would change the lockfile. -/
def Outcome.complaint : Outcome → Option LockfileState
  | .unchanged | .absent => none
  | .created => some .missing
  | .updated => some .stale
  | .deleted => some .unwanted

theorem Outcome.complaint_eq_none {outcome : Outcome} :
    outcome.complaint = none ↔ outcome = .unchanged ∨ outcome = .absent := by
  cases outcome <;> simp [complaint]

theorem complaint_between : (Outcome.between before after).complaint = none ↔ before = after := by
  cases before with
  | none => cases after <;> simp [Outcome.between, Outcome.complaint]
  | some old =>
    cases after with
    | none => simp [Outcome.between, Outcome.complaint]
    | some new =>
      rw [Outcome.between]
      split
      · next heq => simp [Outcome.complaint, heq]
      · next hne => simp [Outcome.complaint, hne]

theorem compare_write (path : Path) (before after : Option String) :
    compare .write path before after = .ok (.between before after) := by
  cases before with
  | none => cases after <;> rfl
  | some old =>
    cases after with
    | none => rfl
    | some new =>
      simp only [compare, Outcome.between, if_true]
      split <;> rfl

/-- A check passes with the outcome that writing would have, or complains of it. -/
theorem compare_check (path : Path) (before after : Option String) :
    compare .check path before after =
      match (Outcome.between before after).complaint with
      | none => .ok (.between before after)
      | some state =>
        .error (.lockfile state path (Diff.unified (before.getD "") (after.getD ""))) := by
  cases before with
  | none => cases after <;> rfl
  | some old =>
    cases after with
    | none => rfl
    | some new =>
      simp only [compare, Outcome.between]
      split
      · rfl
      · rfl

theorem compare_check_ok {outcome : Outcome} : compare .check path before after = .ok outcome ↔
    before = after ∧ outcome = .between before after := by
  rw [compare_check, ← complaint_between]
  cases (Outcome.between before after).complaint <;> simp [eq_comm]

/-- In either mode a comparison that passes tells what happens to the lockfile. -/
theorem compare_ok {mode : Mode} {outcome : Outcome}
    (h : compare mode path before after = .ok outcome) : outcome = .between before after := by
  cases mode with
  | check => exact (compare_check_ok.mp h).2
  | write =>
    rw [compare_write] at h
    exact (Except.ok.inj h).symm

/-- In either mode, what the lockfile should hold is left as it is. -/
theorem compare_self (mode : Mode) (path : Path) (expected : Option String) :
    compare mode path expected expected = .ok (.between expected expected) := by
  cases mode with
  | check => exact compare_check_ok.mpr ⟨rfl, rfl⟩
  | write => exact compare_write path expected expected

theorem yields_write {s : String} {n : Note} :
    Yields t (do Plan.act (.write path s); Plan.note n) t' () ↔
      t.replace path s.toUTF8 = (t', .ok ()) := by
  simp only [yields_bind, yields_act, Plan.note, Action.perform]
  constructor
  · intro h
    obtain ⟨t₁, _, hwrite, heq⟩ := h
    rw [← (Prod.mk.inj heq).1]
    exact hwrite
  · intro h
    exact ⟨t', (), h, rfl⟩

theorem remove_of_yields {n : Note}
    (h : Yields t (do Plan.act (.delete path); Plan.note n) t' ()) : t.remove path = .ok t' := by
  simp only [yields_bind, yields_act, Plan.note, Action.perform] at h
  obtain ⟨t₁, _, hdelete, heq⟩ := h
  rw [← (Prod.mk.inj heq).1]
  split at hdelete
  · cases hdelete
  · split at hdelete
    · next hremove =>
      rw [hremove, (Prod.mk.inj hdelete).1]
    · cases hdelete

/-- Once it was brought in line a lockfile reads as it should; one that did so already was left
alone. -/
theorem enact_between (hbefore : contents (t.read path) = .ok before)
    (hafter : ∀ s, after = some s → Writable s)
    (h : Yields t (enact path (after.getD "") (.between before after)) t' ()) :
    contents (t'.read path) = .ok after ∧ (before = after → t' = t) := by
  have hwritten {s : String} (hs : Writable s) (hwrite : t.replace path s.toUTF8 = (t', .ok ())) :
      contents (t'.read path) = .ok (some s) := by
    rw [read_replace hwrite, contents_of_writable hs]
  cases before with
  | none =>
    cases after with
    | none =>
      obtain ⟨rfl, -⟩ := yields_pure.mp h
      exact ⟨hbefore, fun _ => rfl⟩
    | some new => exact ⟨hwritten (hafter new rfl) (yields_write.mp h), by simp⟩
  | some old =>
    cases after with
    | none =>
      rw [read_remove (remove_of_yields h)]
      exact ⟨rfl, by simp⟩
    | some new =>
      rw [Outcome.between] at h
      split at h
      · next heq =>
        obtain ⟨rfl, -⟩ := yields_pure.mp h
        exact ⟨by rw [hbefore, heq], fun _ => rfl⟩
      · next hne =>
        refine ⟨hwritten (hafter new rfl) (yields_write.mp h), ?_⟩
        intro heq
        exact absurd (Option.some.inj heq) hne

theorem enact_confined {text : String} {outcome : Outcome} (ht : t.Rooted) (hplain : path.IsPlain)
    (h : Yields t (enact path text outcome) t' ()) : Confined path t t' := by
  cases outcome with
  | unchanged | absent =>
    obtain ⟨rfl, -⟩ := yields_pure.mp h
    exact .refl ht
  | created | updated => exact (replace_ok ht hplain (yields_write.mp h)).confined ht
  | deleted => exact (remove_ok ht hplain (remove_of_yields h)).confined ht

theorem sync_yields_iff {mode : Mode} {outcome : Outcome} :
    Yields t (sync mode path existing expected) t' outcome ↔
      compare mode path existing expected = .ok outcome ∧
        Yields t (enact path (expected.getD "") outcome) t' () := by
  rw [sync]
  simp only [yields_bind, yields_ofResult, yields_pure]
  constructor
  · intro h
    obtain ⟨_, _, ⟨rfl, hcompare⟩, _, _, henact, rfl, rfl⟩ := h
    exact ⟨hcompare, henact⟩
  · intro h
    exact ⟨t, outcome, ⟨rfl, h.1⟩, t', (), h.2, rfl, rfl⟩

/-- After a lockfile was brought in line it reads as it should, and all else reads as before. -/
theorem sync_yields {mode : Mode} {outcome : Outcome} (ht : t.Rooted) (hplain : path.IsPlain)
    (hexpected : ∀ s, expected = some s → Writable s)
    (hexisting : contents (t.read path) = .ok existing)
    (h : Yields t (sync mode path existing expected) t' outcome) :
    contents (t'.read path) = .ok expected ∧ Confined path t t' := by
  obtain ⟨hcompare, henact⟩ := sync_yields_iff.mp h
  have hconfined : Confined path t t' := enact_confined ht hplain henact
  rw [compare_ok hcompare] at henact
  exact ⟨(enact_between hexisting hexpected henact).1, hconfined⟩

/-- A lockfile that reads as it should is left alone in either mode. -/
theorem sync_self (t : Tree) (mode : Mode) (path : Path) (expected : Option String) :
    ∃ outcome, Yields t (sync mode path expected expected) t outcome ∧
      (outcome = .unchanged ∨ outcome = .absent) := by
  have houtcome : (Outcome.between expected expected).complaint = none := complaint_between.mpr rfl
  rw [Outcome.complaint_eq_none] at houtcome
  refine ⟨_, sync_yields_iff.mpr ⟨compare_self mode path expected, ?_⟩, houtcome⟩
  rcases houtcome with heq | heq <;> rw [heq] <;> exact yields_pure.mpr ⟨rfl, rfl⟩

end ProductLock.Lockfile
