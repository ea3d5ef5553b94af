import ProductLock.Proofs.Tree.Frame

namespace ProductLock.Tree

variable {t t' : Tree} {path : Path} {text : String} {files : List (Path × String)}

/-- The actions that write files as a whole, one after the other. -/
def writes (files : List (Path × String)) : List Action :=
  files.map fun f => .write f.1 f.2

theorem writes_nil : t.Carries (writes []) t' ↔ t' = t :=
  carries_nil

theorem writes_cons : t.Carries (writes ((path, text) :: files)) t' ↔
    ∃ t₁, t.replace path text.toUTF8 = (t₁, .ok ()) ∧ t₁.Carries (writes files) t' :=
  carries_cons

/-- A file that holds a text, at a path that could be written again. -/
structure Holds (t : Tree) (path : Path) (text : String) : Prop where
  namable : path.isNamable = true
  named : path.name ≠ "" ∧ path.name ≠ ".."
  read_eq : t.read path = .ok text.toUTF8

/-- Files at paths apart from each other hold what was written to them, and what is apart from all
of them reads as before. -/
theorem writes_hold (ht : t.Rooted) (hplain : ∀ f ∈ files, f.1.IsPlain)
    (hapart : files.Pairwise fun f g => f.1.Apart g.1) (h : t.Carries (writes files) t') :
    t'.Rooted ∧ (∀ f ∈ files, t'.Holds f.1 f.2) ∧
      ∀ other : Path, other.IsPlain → (∀ f ∈ files, other.Apart f.1) →
        t'.read other = t.read other := by
  induction files generalizing t with
  | nil =>
    obtain rfl := writes_nil.mp h
    exact ⟨ht, nofun, fun _ _ _ => rfl⟩
  | cons f files ih =>
    obtain ⟨path, text⟩ := f
    obtain ⟨t₁, hreplace, hrest⟩ := writes_cons.mp h
    obtain ⟨hfirst, hplain⟩ := List.forall_mem_cons.mp hplain
    obtain ⟨hhead, hapart⟩ := List.pairwise_cons.mp hapart
    have hnamable := (of_replace_ok hreplace).1
    have hwrote := replace_ok ht hfirst hreplace
    have hconfined := hwrote.confined ht
    obtain ⟨hrooted, hholds, hframe⟩ := ih hconfined.rooted hplain hapart hrest
    refine ⟨hrooted, List.forall_mem_cons.mpr ⟨⟨hnamable, hwrote.named, ?_⟩, hholds⟩, ?_⟩
    · -- The later files lie apart from this one.
      rw [hframe path hfirst hhead]
      exact hwrote.read ht hfirst
    · intro other hother haway
      obtain ⟨hpath, haway⟩ := List.forall_mem_cons.mp haway
      rw [hframe other hother haway]
      exact hconfined.read_eq other hother hpath

/-- Writing files that hold their texts already succeeds and changes nothing. -/
theorem writes_again (ht : t.Rooted) (hplain : ∀ f ∈ files, f.1.IsPlain)
    (hholds : ∀ f ∈ files, t.Holds f.1 f.2) :
    ∃ t', t.Carries (writes files) t' ∧ t'.lookup = t.lookup := by
  induction files generalizing t with
  | nil => exact ⟨t, writes_nil.mpr rfl, rfl⟩
  | cons f files ih =>
    obtain ⟨path, text⟩ := f
    obtain ⟨hfirst, hplain⟩ := List.forall_mem_cons.mp hplain
    obtain ⟨hhead, hholds⟩ := List.forall_mem_cons.mp hholds
    have hfile := (read_ok ht hfirst).mp hhead.read_eq
    obtain ⟨t₁, hreplace⟩ := replace_of_file text.toUTF8 ht hfirst hhead.namable hhead.named hfile
    have hwrote := replace_ok ht hfirst hreplace
    have hsame : t₁.lookup = t.lookup := hwrote.unchanged ht hfile
    have hstill (g) (hg : g ∈ files) : t₁.Holds g.1 g.2 :=
      ⟨(hholds g hg).namable, (hholds g hg).named, (read_congr hsame g.1).trans (hholds g hg).read_eq⟩
    obtain ⟨t', hrest, hrestSame⟩ := ih (hwrote.rooted ht) hplain hstill
    exact ⟨t', writes_cons.mpr ⟨t₁, hreplace, hrest⟩, hrestSame.trans hsame⟩

end ProductLock.Tree
