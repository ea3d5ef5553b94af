import ProductLock.Proofs.Lockfile.Sync

namespace ProductLock.Lockfile

open ProductLock.Tree Plan

variable {t t' : Tree} {path : Path} {w : Workspace} {r : Report} {before after : Option String}

/-- A check is nothing but a comparison. -/
theorem sync_check (path : Path) (before after : Option String) :
    sync .check path before after = ofResult (compare .check path before after) := by
  rw [sync]
  cases hcompare : compare .check path before after with
  | error f => rfl
  | ok outcome =>
    obtain ⟨heq, rfl⟩ := compare_check_ok.mp hcompare
    rcases Outcome.complaint_eq_none.mp (complaint_between.mpr heq) with houtcome | houtcome
    · rw [houtcome]
      rfl
    · rw [houtcome]
      rfl

theorem result_enact (path : Path) (text : String) (outcome : Outcome) :
    (enact path text outcome).result = .ok () := by
  cases outcome <;> rfl

theorem result_sync_write (path : Path) (before after : Option String) :
    (sync .write path before after).result = .ok (.between before after) := by
  rw [sync, compare_write]
  apply result_bind.mpr
  refine ⟨_, rfl, ?_⟩
  apply result_bind.mpr
  exact ⟨(), result_enact _ _ _, rfl⟩

/-- A lockfile is read where it lies, and then brought in line with a report or compared with it. -/
def syncAt (mode : Mode) (path : Path) (w : Workspace) (r : Report) (t : Tree) :
    Performed Outcome :=
  t.perform do
    let existing ← ofResult (contents (t.read path))
    sync mode path existing (render w r)

theorem syncAt_eq (mode : Mode) (w : Workspace) (r : Report)
    (h : contents (t.read path) = .ok before) :
    syncAt mode path w r t = t.perform (sync mode path before (render w r)) := by
  rw [syncAt, h]
  rfl

theorem syncAt_check (w : Workspace) (r : Report) (h : contents (t.read path) = .ok before) :
    syncAt .check path w r t = ⟨t, [], compare .check path before (render w r)⟩ := by
  rw [syncAt_eq .check w r h, sync_check]
  rfl

/-- The two modes on a lockfile that holds one thing and should hold what a report asks for. -/
structure InStep (t : Tree) (path : Path) (w : Workspace) (r : Report)
    (before : Option String) : Prop where
  told : (syncAt .write path w r t).result = .ok (.between before (render w r))
  held : contents ((syncAt .write path w r t).tree.read path) = .ok (render w r)
  absent : contents ((syncAt .write path w r t).tree.read path) = .ok none ↔ r.dependencies = []
  idle : (syncAt .check path w r t).tree = t
  /-- A check passes where writing leaves the file alone. -/
  passed : ∀ outcome, (syncAt .check path w r t).result = .ok outcome ↔
    (syncAt .write path w r t).result = .ok outcome ∧
      (syncAt .write path w r t).tree.read path = t.read path
  /-- A check complains of what writing would do. -/
  refused : ∀ f, (syncAt .check path w r t).result = .error f ↔
    ∃ outcome state, (syncAt .write path w r t).result = .ok outcome ∧
      outcome.complaint = some state ∧
      f = .lockfile state path (Diff.unified (before.getD "") ((render w r).getD ""))
  again : ∀ mode, ∃ outcome, (outcome = .unchanged ∨ outcome = .absent) ∧
    (syncAt mode path w r (syncAt .write path w r t).tree).result = .ok outcome ∧
    (syncAt mode path w r (syncAt .write path w r t).tree).tree = (syncAt .write path w r t).tree

/-- As long as the file operations succeed, a check says beforehand what writing will do. -/
theorem modes_inStep (hbefore : contents (t.read path) = .ok before)
    (hfiles : ∀ fault, (syncAt .write path w r t).result ≠ .error (.file fault)) :
    InStep t path w r before := by
  have hwrite := syncAt_eq .write w r hbefore
  have hcheck := syncAt_check w r hbefore
  have htold : (syncAt .write path w r t).result = .ok (.between before (render w r)) := by
    rw [hwrite] at hfiles ⊢
    rcases perform_result t (sync .write path before (render w r)) with hresult | ⟨fault, hfault⟩
    · rw [hresult, result_sync_write]
    · exact absurd hfault (hfiles fault)
  have hyields : Yields t (sync .write path before (render w r)) (syncAt .write path w r t).tree
      (.between before (render w r)) := by
    rw [hwrite] at htold ⊢
    exact yields_of_perform htold
  obtain ⟨hheld, hkept⟩ :=
    enact_between hbefore (fun _ => writable_render) (sync_yields_iff.mp hyields).2
  refine ⟨htold, hheld, ?_, by rw [hcheck], ?_, ?_, ?_⟩
  · rw [hheld, Except.ok.injEq, render_eq_none_iff]
  · intro outcome
    rw [hcheck, htold, compare_check_ok, Except.ok.injEq, eq_comm (a := outcome), and_comm]
    apply and_congr_right
    intro _
    constructor
    · intro heq
      rw [hkept heq]
    · intro hread
      rw [hread, hbefore] at hheld
      exact Except.ok.inj hheld
  · intro f
    rw [hcheck, htold]
    dsimp only
    rw [compare_check]
    cases hcomplaint : (Outcome.between before (render w r)).complaint with
    | none => simp [hcomplaint]
    | some state => simp [hcomplaint, eq_comm]
  · intro mode
    obtain ⟨outcome, hagain, houtcome⟩ := sync_self (syncAt .write path w r t).tree mode path
      (render w r)
    refine ⟨outcome, houtcome, ?_⟩
    rw [syncAt_eq mode w r hheld]
    exact perform_of_yields hagain

/-- A lockfile of an earlier time, its lines ended by carriage returns and line feeds. -/
def olderTree : Tree where
  entries := [(["locks"], .directory),
    (["locks", "orders.lock"], .file "shop:api (1.0.0, 1.x.x)\r\nshop:cart (2.0.0, 2.x.x)\r\n".toUTF8)]

theorem modes_inStep_older :
    let path : Path := ⟨0, ["locks", "..", "locks", "orders.lock"]⟩
    let w : Workspace := ⟨[], some "3.0.0"⟩
    let r : Report := .of [.ofFields ⟨"shop", "api", "1.2.0", "1.x.x", none, false⟩ rfl]
    (syncAt .write path w r olderTree).result = .ok .updated ∧
      InStep olderTree path w r (some "shop:api (1.0.0, 1.x.x)\nshop:cart (2.0.0, 2.x.x)\n") := by
  intro path w r
  have hbefore : (contents (olderTree.read path)).toOption =
      some (some "shop:api (1.0.0, 1.x.x)\nshop:cart (2.0.0, 2.x.x)\n") := by decide +kernel
  have hresult : (syncAt .write path w r olderTree).result.toOption = some .updated := by
    decide +kernel
  replace hresult := toOption_eq_some.mp hresult
  refine ⟨hresult, modes_inStep (toOption_eq_some.mp hbefore) ?_⟩
  intro fault
  rw [hresult]
  nofun

end ProductLock.Lockfile
