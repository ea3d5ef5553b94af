import ProductLock.Proofs.Plan
import ProductLock.Proofs.Tree.Replace

namespace ProductLock

namespace Path

/-- On its way, or at its end, a path comes to a place. -/
def LeadsThrough (path : Path) (q : Place) : Prop :=
  ∃ parts, parts <+: path.parts ∧ Place.follow [] parts = q

instance (path : Path) (q : Place) : Decidable (path.LeadsThrough q) :=
  decidable_of_iff (∃ parts ∈ path.parts.inits, Place.follow [] parts = q) (by
    simp only [List.mem_inits, LeadsThrough])

theorem leadsThrough_place (path : Path) : path.LeadsThrough path.place :=
  ⟨path.parts, List.prefix_refl _, rfl⟩

theorem LeadsThrough.of_prefix {path other : Path} {q : Place} (h : other.LeadsThrough q)
    (hparts : other.parts <+: path.parts) : path.LeadsThrough q := by
  obtain ⟨parts, hprefix, hfollow⟩ := h
  exact ⟨parts, hprefix.trans hparts, hfollow⟩

end Path

namespace Tree

variable {t t' : Tree} {p q here : Place} {path : Path} {bytes : ByteArray} {parts : List String}

/-- A way through directories stays open as long as they stay. -/
theorem walk_mono (hstay : ∀ q, t.lookup q = some .directory → t'.lookup q = some .directory)
    (h : t.walk here parts = .ok p) : t'.walk here parts = .ok p := by
  induction parts generalizing here with
  | nil => exact h
  | cons part parts ih =>
    rw [walk] at h ⊢
    split at h
    · contradiction
    · contradiction
    · next hdirectory =>
      rw [hstay here hdirectory]
      exact ih h

/-- What was written to a path, whatever path it is, is read there. -/
theorem read_write (h : t.write path bytes = .ok t') : t'.read path = .ok bytes := by
  obtain ⟨hlocate, hold, rfl⟩ := of_write_ok h
  have hset (q : Place) := lookup_set (t := t) (e := .file bytes) (q := q) (ne_nil_of_lookup hold)
  have hlocate' : (t.set path.place (.file bytes)).locate path = .ok path.place := by
    apply walk_mono _ hlocate
    intro q hq
    have hne : q ≠ path.place := fun heq => hold (heq ▸ hq)
    rw [hset, if_neg hne, hq]
  rw [read_of_locate hlocate', hset, if_pos rfl]

theorem read_remove (h : t.remove path = .ok t') : t'.read path = .error .missing := by
  obtain ⟨hlocate, ⟨old, hfile⟩, rfl⟩ := of_remove_ok h
  have hold : t.lookup path.place ≠ some .directory := by simp [hfile]
  have herase (q : Place) := lookup_erase (t := t) (q := q) (ne_nil_of_lookup hold)
  have hlocate' : (t.erase path.place).locate path = .ok path.place := by
    apply walk_mono _ hlocate
    intro q hq
    have hne : q ≠ path.place := fun heq => hold (heq ▸ hq)
    rw [herase, if_neg hne, hq]
  rw [read_of_locate hlocate', herase, if_pos rfl]

theorem lookup_write (h : t.write path bytes = .ok t') (hq : q ≠ path.place) :
    t'.lookup q = t.lookup q := by
  obtain ⟨-, hold, rfl⟩ := of_write_ok h
  rw [lookup_set (ne_nil_of_lookup hold), if_neg hq]

theorem lookup_remove (h : t.remove path = .ok t') (hq : q ≠ path.place) :
    t'.lookup q = t.lookup q := by
  obtain ⟨-, ⟨old, hfile⟩, rfl⟩ := of_remove_ok h
  have hold : t.lookup path.place ≠ some .directory := by simp [hfile]
  rw [lookup_erase (ne_nil_of_lookup hold), if_neg hq]

/-- At a place nothing changes, but that a directory may appear where there was nothing, and only
under some condition. -/
def Keeps (q : Place) (condition : Prop) (t t' : Tree) : Prop :=
  t'.lookup q = t.lookup q ∨
    condition ∧ t.lookup q = none ∧ t'.lookup q = some .directory

variable {c d : Prop}

theorem Keeps.of_eq (h : t'.lookup q = t.lookup q) : Keeps q c t t' :=
  .inl h

theorem Keeps.mono (h : Keeps q c t t') (hcd : c → d) : Keeps q d t t' :=
  h.imp_right fun ⟨hc, hchange⟩ => ⟨hcd hc, hchange⟩

theorem Keeps.trans {t₁ : Tree} (h : Keeps q c t t₁) (h' : Keeps q c t₁ t') : Keeps q c t t' := by
  rcases h with h | ⟨hc, hnone, hdirectory⟩
  · rw [Keeps, ← h]
    exact h'
  · refine .inr ⟨hc, hnone, ?_⟩
    rcases h' with h' | ⟨-, hnone', -⟩
    · rw [h', hdirectory]
    · rw [hdirectory] at hnone'
      contradiction

theorem Keeps.lookup_eq (h : Keeps q c t t') (hc : ¬ c) : t'.lookup q = t.lookup q :=
  h.resolve_right fun hchange => hc hchange.1

/-- A file is neither made, changed nor taken away. -/
theorem Keeps.file_iff (h : Keeps q c t t') :
    t'.lookup q = some (.file bytes) ↔ t.lookup q = some (.file bytes) := by
  rcases h with h | ⟨-, hnone, hdirectory⟩
  · rw [h]
  · rw [hnone, hdirectory]
    exact iff_of_false nofun nofun

/-- No file was made, changed or taken away. -/
def SameFiles (t t' : Tree) : Prop :=
  ∀ p bytes, t'.lookup p = some (.file bytes) ↔ t.lookup p = some (.file bytes)

theorem SameFiles.of_lookup (h : t'.lookup = t.lookup) : t.SameFiles t' := by
  intro p bytes
  rw [h]

theorem SameFiles.trans {t₁ : Tree} (h : t.SameFiles t₁) (h' : t₁.SameFiles t') : t.SameFiles t' :=
  fun p bytes => (h' p bytes).trans (h p bytes)

theorem SameFiles.symm (h : t.SameFiles t') : t'.SameFiles t :=
  fun p bytes => (h p bytes).symm

theorem makeDirectory_keeps (h : t.makeDirectory path = .ok t') (q : Place) :
    Keeps q (path.LeadsThrough q) t t' := by
  obtain ⟨-, hnone, rfl⟩ := of_makeDirectory_ok h
  have hne : path.place ≠ [] := ne_nil_of_lookup (t := t) (by simp [hnone])
  by_cases hq : q = path.place
  · subst hq
    exact .inr ⟨path.leadsThrough_place, hnone, by rw [lookup_set hne, if_pos rfl]⟩
  · exact .of_eq (by rw [lookup_set hne, if_neg hq])

theorem ensureFrom_keeps (t : Tree) (slashes : Nat) (parts : List String) (q : Place) :
    Keeps q (Path.LeadsThrough ⟨slashes, parts.reverse⟩ q) t (t.ensureFrom slashes parts).1 := by
  induction parts with
  | nil => exact .of_eq rfl
  | cons part parents ih =>
    have hbelow : Path.LeadsThrough ⟨slashes, parents.reverse⟩ q →
        Path.LeadsThrough ⟨slashes, (part :: parents).reverse⟩ q := fun h => h.of_prefix (by simp)
    replace ih := ih.mono hbelow
    cases hmake : t.makeDirectory ⟨slashes, (part :: parents).reverse⟩ with
    | ok made =>
      simp only [ensureFrom, hmake]
      exact makeDirectory_keeps hmake q
    | error fault =>
      by_cases hfault : fault = .missing
      · subst hfault
        simp only [ensureFrom, hmake]
        rcases hensure : t.ensureFrom slashes parents with ⟨t₁, result⟩
        rw [hensure] at ih
        cases result with
        | error fault => exact ih
        | ok u =>
          dsimp only
          split
          · next made hmake => exact ih.trans (makeDirectory_keeps hmake q)
          · exact ih
      · simp only [ensureFrom, hmake]
        exact .of_eq rfl

theorem ensureDirectory_keeps (t : Tree) (path : Path) (q : Place) :
    Keeps q (path.LeadsThrough q) t (t.ensureDirectory path).1 := by
  have := ensureFrom_keeps t path.slashes path.parts.reverse q
  rwa [List.reverse_reverse] at this

theorem eq_none_of_stopsAt {i : Option Interruption} (h : ∀ s, stopsAt i s = none) : i = none := by
  cases i with
  | none => rfl
  | some i => simpa [stopsAt] using h i.step

/-- Replacing a file either fails, when at most directories on the way to its own are new, or writes
it where nothing else has changed. -/
theorem replaceBy_cases {temporary : Tree → Place → String} (hfresh : Fresh temporary) (t : Tree)
    (i : Option Interruption) (path : Path) (bytes : ByteArray) :
    (∃ fault, (t.replaceBy temporary i path bytes).2 = .error fault ∧
      ∀ q, Keeps q (path.parent.LeadsThrough q) t (t.replaceBy temporary i path bytes).1) ∨
    ((t.replaceBy temporary i path bytes).2 = .ok () ∧ i = none ∧
      ∃ t₁, (∀ q, Keeps q (path.parent.LeadsThrough q) t t₁) ∧
        t₁.write path bytes = .ok (t.replaceBy temporary i path bytes).1) := by
  have hparents (q : Place) := ensureDirectory_keeps t path.parent q
  unfold replaceBy
  split
  · next fault _ =>
    have hmade (n : Nat) (q : Place) : Path.LeadsThrough ⟨path.slashes, path.parent.parts.take n⟩ q →
        path.parent.LeadsThrough q := fun h => h.of_prefix (List.take_prefix n _)
    exact .inl ⟨fault, rfl, fun q => (ensureDirectory_keeps t _ q).mono (hmade _ q)⟩
  · next hparentsNone =>
    rcases hensure : t.ensureDirectory path.parent with ⟨t₁, result⟩
    rw [hensure] at hparents
    dsimp only at hparents ⊢
    cases result with
    | error fault => exact .inl ⟨fault, rfl, hparents⟩
    | ok u =>
      dsimp only
      split
      · exact .inl ⟨_, rfl, hparents⟩
      · exact .inl ⟨_, rfl, hparents⟩
      · next directory htemporaryNone _ =>
        -- Whatever was written to the temporary file, it goes with it.
        have hgone (e : Entry) (q : Place) :=
          congrFun (lookup_erase_set (by simp) (hfresh t₁ directory) e) q
        have hkeeps (e : Entry) (q : Place) := (hparents q).trans (.of_eq (hgone e q))
        split
        · next fault _ => exact .inl ⟨fault, rfl, hkeeps _⟩
        · next hcontentsNone =>
          split
          · next fault _ => exact .inl ⟨fault, rfl, hkeeps _⟩
          · next hreplacementNone =>
            have hnone : i = none := by
              apply eq_none_of_stopsAt
              rintro (_ | _ | _ | _) <;> assumption
            split
            · next t₂ hrename =>
              rw [rename] at hrename
              split at hrename
              · contradiction
              · exact .inr ⟨rfl, hnone, _, hkeeps _, hrename⟩
            · next fault _ => exact .inl ⟨fault, rfl, hkeeps _⟩

theorem isNamable_parent (h : path.isNamable = true) : path.parent.isNamable = true := by
  rw [Path.isNamable, List.all_eq_true] at h ⊢
  exact fun part hpart => h part ((List.dropLast_prefix _).subset hpart)

theorem obstacle?_eq_none : obstacle? path = none ↔ path.isNamable = true := by
  unfold obstacle?
  split
  · next hparent => exact iff_of_false nofun fun h => hparent (isNamable_parent h)
  · split
    · next hpath => exact iff_of_false nofun hpath
    · next hpath => exact iff_of_true rfl (not_not.mp hpath)

theorem replace_of_namable (h : path.isNamable = true) : t.replace path bytes =
    t.replaceBy (fun t _ => t.temporaryName path.name) none path bytes := by
  rw [replace, obstacle?_eq_none.mpr h]

/-- Replacing a file either fails, when at most directories on the way to its own are new, or the
path can be named and the file is written where nothing else has changed. -/
theorem replace_cases (t : Tree) (path : Path) (bytes : ByteArray) :
    (∃ fault, (t.replace path bytes).2 = .error fault ∧
      ∀ q, Keeps q (path.parent.LeadsThrough q) t (t.replace path bytes).1) ∨
    ((t.replace path bytes).2 = .ok () ∧ path.isNamable = true ∧
      ∃ t₁, (∀ q, Keeps q (path.parent.LeadsThrough q) t t₁) ∧
        t₁.write path bytes = .ok (t.replace path bytes).1) := by
  rw [← obstacle?_eq_none]
  exact replaceBy_cases (fresh_temporaryName path.name) t (obstacle? path) path bytes

theorem replace_keeps (t : Tree) (bytes : ByteArray) (hq : q ≠ path.place) :
    Keeps q (path.LeadsThrough q) t (t.replace path bytes).1 := by
  have hparent : path.parent.LeadsThrough q → path.LeadsThrough q :=
    fun h => h.of_prefix (List.dropLast_prefix _)
  rcases replace_cases t path bytes with ⟨_, _, hkeeps⟩ | ⟨_, _, t₁, hkeeps, hwrite⟩
  · exact (hkeeps q).mono hparent
  · exact ((hkeeps q).trans (.of_eq (lookup_write hwrite hq))).mono hparent

/-- Where a file cannot be replaced no file changes. -/
theorem sameFiles_of_replace_error {fault : FileFault}
    (h : t.replace path bytes = (t', .error fault)) : t.SameFiles t' := by
  have hcases := replace_cases t path bytes
  rw [h] at hcases
  rcases hcases with ⟨_, _, hkeeps⟩ | ⟨hok, _⟩
  · exact fun p other => (hkeeps p).file_iff
  · contradiction

theorem of_replace_ok (h : t.replace path bytes = (t', .ok ())) :
    path.isNamable = true ∧ ∃ t₁ : Tree, t₁.write path bytes = .ok t' := by
  have hcases := replace_cases t path bytes
  rw [h] at hcases
  rcases hcases with ⟨_, hfault, _⟩ | ⟨_, hnamable, t₁, _, hwrite⟩
  · contradiction
  · exact ⟨hnamable, t₁, hwrite⟩

theorem read_replace (h : t.replace path bytes = (t', .ok ())) : t'.read path = .ok bytes := by
  obtain ⟨_, _, hwrite⟩ := of_replace_ok h
  exact read_write hwrite

theorem replace_ok (ht : t.Rooted) (hplain : path.IsPlain)
    (h : t.replace path bytes = (t', .ok ())) : Wrote t path bytes t' := by
  rw [replace_of_namable (of_replace_ok h).1] at h
  exact replaceBy_ok (fresh_temporaryName path.name) ht hplain h

/-- A file that is there can be replaced. -/
theorem replace_of_file (bytes : ByteArray) (ht : t.Rooted) (hplain : path.IsPlain)
    (hnamable : path.isNamable = true) (hnamed : path.name ≠ "" ∧ path.name ≠ "..")
    {old : ByteArray} (hold : t.lookup path.parts = some (.file old)) :
    ∃ t', t.replace path bytes = (t', .ok ()) := by
  rw [replace_of_namable hnamable]
  exact replaceBy_of_clear (fresh_temporaryName path.name) bytes ht hplain
    (clear_of_file ht hnamed hold)

end Tree

/-- The path that an action is about, if it is about a file. -/
def Action.target : Action → Option Path
  | .note _ | .say _ => none
  | .write path _ | .delete path => some path

namespace Plan

variable {α β : Type} {p : Plan α} {paths : List Path}

/-- A plan that writes and deletes at some paths only. -/
def Within (paths : List Path) (p : Plan α) : Prop :=
  ∀ a ∈ p.actions, ∀ path, a.target = some path → path ∈ paths

theorem IsQuiet.within (h : p.IsQuiet) : p.Within paths := by
  intro a ha path htarget
  have hquiet := h a ha
  cases a with
  | note n => contradiction
  | say line => contradiction
  | write path contents => contradiction
  | delete path => contradiction

theorem Within.bind {next : α → Plan β} (h : p.Within paths) (hnext : ∀ a, (next a).Within paths) :
    (p >>= next).Within paths := by
  rw [bind_eq, andThen]
  cases p.result with
  | error f => exact h
  | ok a =>
    intro action haction
    rcases List.mem_append.mp haction with haction | haction
    · exact h action haction
    · exact hnext a action haction

theorem within_write {path : Path} {text : String} (h : path ∈ paths) :
    (act (.write path text)).Within paths := by
  intro a ha other htarget
  rw [List.mem_singleton.mp ha] at htarget
  rw [← Option.some.inj htarget]
  exact h

end Plan

namespace Tree

variable {α : Type} {t : Tree} {q : Place} {paths : List Path}

theorem perform_action_keeps {a : Action} (htarget : ∀ path, a.target = some path → path ∈ paths)
    (hq : ∀ path ∈ paths, q ≠ path.place) :
    Keeps q (∃ path ∈ paths, path.LeadsThrough q) t (a.perform t).1 := by
  cases a with
  | note n => exact .of_eq rfl
  | say line => exact .of_eq rfl
  | write path contents =>
    have hmem : path ∈ paths := htarget path rfl
    exact (replace_keeps t contents.toUTF8 (hq path hmem)).mono fun h => ⟨path, hmem, h⟩
  | delete path =>
    rw [Action.perform]
    split
    · exact .of_eq rfl
    · split
      · next hremove => exact .of_eq (lookup_remove hremove (hq path (htarget path rfl)))
      · exact .of_eq rfl

/-- However far its actions come, a plan leaves alone what no path of it names. -/
theorem performAll_keeps {as : List Action}
    (htargets : ∀ a ∈ as, ∀ path, a.target = some path → path ∈ paths)
    (hq : ∀ path ∈ paths, q ≠ path.place) :
    Keeps q (∃ path ∈ paths, path.LeadsThrough q) t (t.performAll as).1 := by
  induction as generalizing t with
  | nil => exact .of_eq rfl
  | cons a as ih =>
    obtain ⟨ha, has⟩ := List.forall_mem_cons.mp htargets
    have hfirst := perform_action_keeps (t := t) ha hq
    rw [performAll]
    rcases hstep : a.perform t with ⟨t₁, result⟩
    rw [hstep] at hfirst
    cases result with
    | error fault => exact hfirst
    | ok u => exact hfirst.trans (ih has)

theorem perform_tree (t : Tree) (p : Plan α) : (t.perform p).tree = (t.performAll p.actions).1 := by
  rw [perform]
  rcases t.performAll p.actions with ⟨t₁, done, fault⟩
  cases fault <;> rfl

theorem perform_keeps {p : Plan α} (hp : p.Within paths) (hq : ∀ path ∈ paths, q ≠ path.place) :
    Keeps q (∃ path ∈ paths, path.LeadsThrough q) t (t.perform p).tree := by
  rw [perform_tree]
  exact performAll_keeps hp hq

end Tree

end ProductLock
