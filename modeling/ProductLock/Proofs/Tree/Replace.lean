import ProductLock.Proofs.Tree.Basic
import ProductLock.Tree.Replace

namespace ProductLock.Tree

variable {t t' : Tree} {p q : Place} {path : Path} {bytes : ByteArray}

theorem isDirectory_iff (ht : t.Rooted) (hplain : path.IsPlain) :
    t.isDirectory path = true ↔ t.lookup path.parts = some .directory := by
  unfold isDirectory
  constructor
  · intro h
    split at h
    · contradiction
    · next hl =>
      obtain ⟨rfl, -⟩ := eq_of_walk_ok hplain hl
      simpa using h
  · intro h
    rw [locate_of_lookup ht hplain h]
    simpa using h

theorem acceptDirectory_ok (ht : t.Rooted) (hplain : path.IsPlain) {fault : FileFault} :
    t.acceptDirectory path fault = (t', .ok ()) ↔
      t' = t ∧ t.lookup path.parts = some .directory := by
  rw [acceptDirectory, ← isDirectory_iff ht hplain]
  cases t.isDirectory path <;> simp [eq_comm]

theorem makeDirectory_of_locate (h : t.locate path = .ok p) : t.makeDirectory path =
    match t.lookup p with
    | some _ => .error .exists
    | none => .ok (t.set p .directory) := by
  rw [makeDirectory, h]
  rfl

theorem makeDirectory_of_nothing (h : t.locate path = .ok p) (hnone : t.lookup p = none) :
    t.makeDirectory path = .ok (t.set p .directory) := by
  rw [makeDirectory_of_locate h, hnone]

theorem of_makeDirectory_ok (h : t.makeDirectory path = .ok t') :
    t.locate path = .ok path.place ∧ t.lookup path.place = none ∧
      t' = t.set path.place .directory := by
  cases hlocate : t.locate path with
  | error fault =>
    rw [makeDirectory, hlocate] at h
    contradiction
  | ok p =>
    obtain rfl := locate_ok hlocate
    rw [makeDirectory_of_locate hlocate] at h
    split at h
    · contradiction
    · next hnone =>
      cases h
      exact ⟨rfl, hnone, rfl⟩

theorem makeDirectory_ok (hplain : path.IsPlain)
    (h : t.makeDirectory path = .ok t') :
    t' = t.set path.parts .directory ∧ t.lookup path.parts = none ∧ path.parts ≠ [] ∧
      t.lookup path.parts.dropLast = some .directory := by
  obtain ⟨hlocate, hnone, rfl⟩ := of_makeDirectory_ok h
  obtain ⟨hplace, hparent⟩ := eq_of_walk_ok hplain hlocate
  rw [hplace] at hnone ⊢
  have hne : path.parts ≠ [] := ne_nil_of_lookup (t := t) (by simp [hnone])
  exact ⟨rfl, hnone, hne, hparent hne⟩

theorem not_append_prefix_self (p : Place) (last : String) : ¬ p ++ [last] <+: p := by
  intro h
  have := h.length_le
  simp only [List.length_append, List.length_singleton] at this
  omega

/-- What seeing to a directory comes to: it is there, as are those above it, no file had to give
way, and nothing else changes. -/
structure Ensured (t : Tree) (p : Place) (t' : Tree) : Prop where
  rooted : t'.Rooted
  lookup_eq : ∀ q, t'.lookup q = if q <+: p then some .directory else t.lookup q
  no_file : ∀ q bytes, q <+: p → t.lookup q ≠ some (.file bytes)

theorem Ensured.refl (ht : t.Rooted) (h : t.lookup p = some .directory) : Ensured t p t := by
  have habove (q : Place) (hq : q <+: p) : t.lookup q = some .directory := by
    by_cases heq : q = p
    · rw [heq]
      exact h
    · exact ht.above h hq heq
  refine ⟨ht, ?_, ?_⟩
  · intro q
    split
    · next hq => exact habove q hq
    · rfl
  · intro q bytes hq
    rw [habove q hq]
    simp

/-- A new directory below one that was seen to. -/
theorem Ensured.make {t₁ : Tree} {last : String} (h : Ensured t p t₁)
    (hnone : t₁.lookup (p ++ [last]) = none) :
    Ensured t (p ++ [last]) (t₁.set (p ++ [last]) .directory) := by
  have hp : t₁.lookup p = some .directory := by rw [h.lookup_eq, if_pos (List.prefix_refl p)]
  refine ⟨h.rooted.set (by simp) (by simpa using hp) (by simp [hnone]), ?_, ?_⟩
  · intro q
    rw [lookup_set (by simp), h.lookup_eq]
    by_cases hq : q = p ++ [last]
    · simp [hq]
    · simp [hq, List.prefix_concat_iff]
  · intro q bytes hq
    rcases List.prefix_concat_iff.mp hq with rfl | hq
    · rw [h.lookup_eq, if_neg (not_append_prefix_self p last)] at hnone
      simp [hnone]
    · exact h.no_file q bytes hq

/-- A directory that is there below one that was seen to. -/
theorem Ensured.accept {t₁ : Tree} {last : String} (h : Ensured t p t₁)
    (hdir : t₁.lookup (p ++ [last]) = some .directory) : Ensured t (p ++ [last]) t₁ := by
  refine ⟨h.rooted, ?_, ?_⟩
  · intro q
    by_cases hq : q = p ++ [last]
    · simp [hq, hdir]
    · rw [h.lookup_eq]
      simp [hq, List.prefix_concat_iff]
  · intro q bytes hq
    rcases List.prefix_concat_iff.mp hq with rfl | hq
    · rw [h.lookup_eq, if_neg (not_append_prefix_self p last)] at hdir
      simp [hdir]
    · exact h.no_file q bytes hq

theorem ensureFrom_ok (ht : t.Rooted) {slashes : Nat} {parts : List String}
    (hplain : ".." ∉ parts) (h : t.ensureFrom slashes parts = (t', .ok ())) :
    Ensured t parts.reverse t' := by
  induction parts generalizing t' with
  | nil =>
    obtain ⟨rfl, hdir⟩ := (acceptDirectory_ok ht (by simp [Path.IsPlain])).mp h
    exact .refl ht hdir
  | cons part parents ih =>
    have hplainHere : (⟨slashes, (part :: parents).reverse⟩ : Path).IsPlain := by
      simpa [Path.IsPlain, and_comm] using hplain
    have hparents : ".." ∉ parents := fun hmem => hplain (List.mem_cons_of_mem _ hmem)
    cases hmake : t.makeDirectory ⟨slashes, (part :: parents).reverse⟩ with
    | ok made =>
      simp only [ensureFrom, hmake] at h
      cases h
      obtain ⟨rfl, hnone, -, hparent⟩ := makeDirectory_ok hplainHere hmake
      simp only [List.reverse_cons] at hnone hparent ⊢
      exact (Ensured.refl ht (by simpa using hparent)).make hnone
    | error fault =>
      by_cases hfault : fault = .missing
      · subst hfault
        simp only [ensureFrom, hmake] at h
        split at h
        · cases h
        · next t₁ hensure =>
          have hens := ih hparents hensure
          split at h
          · next made hmake =>
            cases h
            obtain ⟨rfl, hnone, -, -⟩ := makeDirectory_ok hplainHere hmake
            simp only [List.reverse_cons] at hnone ⊢
            exact hens.make hnone
          · obtain ⟨rfl, hdir⟩ := (acceptDirectory_ok hens.rooted hplainHere).mp h
            simp only [List.reverse_cons] at hdir ⊢
            exact hens.accept hdir
      · simp only [ensureFrom, hmake] at h
        obtain ⟨rfl, hdir⟩ := (acceptDirectory_ok ht hplainHere).mp h
        exact .refl ht hdir

theorem ensureDirectory_ok (ht : t.Rooted) (hplain : path.IsPlain)
    (h : t.ensureDirectory path = (t', .ok ())) : Ensured t path.parts t' := by
  have := ensureFrom_ok ht (by simpa [Path.IsPlain] using hplain) h
  rwa [List.reverse_reverse] at this

/-- Where there is a directory already, nothing has to be done. -/
theorem ensureDirectory_of_directory (ht : t.Rooted) (hplain : path.IsPlain)
    (h : t.lookup path.parts = some .directory) : t.ensureDirectory path = (t, .ok ()) := by
  have haccept (fault : FileFault) : t.acceptDirectory path fault = (t, .ok ()) :=
    (acceptDirectory_ok ht hplain).mpr ⟨rfl, h⟩
  obtain ⟨slashes, parts⟩ := path
  unfold ensureDirectory
  cases hrev : parts.reverse with
  | nil =>
    rw [List.reverse_eq_nil_iff.mp hrev] at haccept
    exact haccept .exists
  | cons part parents =>
    have hparts : (part :: parents).reverse = parts := by rw [← hrev, List.reverse_reverse]
    have hexists : t.makeDirectory ⟨slashes, parts⟩ = .error .exists := by
      rw [makeDirectory_of_locate (locate_of_lookup ht hplain h)]
      change (match t.lookup parts with | _ => _) = _
      rw [h]
    simp only [ensureFrom, hparts, hexists, haccept]

/-- With no file in the way, what a path does not lead to is missing. -/
theorem locate_of_no_file (ht : t.Rooted) (hplain : path.IsPlain)
    (hfile : ∀ q bytes, q <+: path.parts → t.lookup q ≠ some (.file bytes)) :
    t.locate path = .ok path.parts ∨ t.locate path = .error .missing := by
  cases hlocate : t.locate path with
  | ok p =>
    obtain ⟨rfl, -⟩ := eq_of_walk_ok hplain hlocate
    exact .inl rfl
  | error fault =>
    have hnone : t.lookup path.parts = none := by
      by_contra hsome
      obtain ⟨e, he⟩ := Option.ne_none_iff_exists'.mp hsome
      rw [locate_of_lookup ht hplain he] at hlocate
      contradiction
    have hmissing := read_of_nothing ht hplain hnone hfile
    rw [read_of_fault hlocate] at hmissing
    cases hmissing
    exact .inr rfl

/-- With no file in the way, a directory can be seen to. -/
theorem ensureFrom_of_no_file (ht : t.Rooted) (slashes : Nat) {parts : List String}
    (hplain : ".." ∉ parts)
    (hfile : ∀ q bytes, q <+: parts.reverse → t.lookup q ≠ some (.file bytes)) :
    ∃ t', t.ensureFrom slashes parts = (t', .ok ()) := by
  induction parts with
  | nil => exact ⟨t, (acceptDirectory_ok ht (by simp [Path.IsPlain])).mpr ⟨rfl, lookup_nil t⟩⟩
  | cons part parents ih =>
    have hplainHere : (⟨slashes, (part :: parents).reverse⟩ : Path).IsPlain := by
      simpa [Path.IsPlain, and_comm] using hplain
    have hparents : ".." ∉ parents := fun hmem => hplain (List.mem_cons_of_mem _ hmem)
    cases hl : t.lookup (part :: parents).reverse with
    | some e =>
      cases e with
      | file bytes => exact absurd hl (hfile _ bytes (List.prefix_refl _))
      | directory =>
        have := ensureDirectory_of_directory ht hplainHere hl
        rw [ensureDirectory, List.reverse_reverse] at this
        exact ⟨t, this⟩
    | none =>
      rcases locate_of_no_file ht hplainHere hfile with hlocate | hlocate
      · refine ⟨t.set (part :: parents).reverse .directory, ?_⟩
        simp only [ensureFrom, makeDirectory_of_nothing hlocate hl]
      · have hmissing : t.makeDirectory ⟨slashes, (part :: parents).reverse⟩ = .error .missing := by
          rw [makeDirectory, hlocate]
          rfl
        obtain ⟨t₁, hensure⟩ := ih hparents fun q bytes hq =>
          hfile q bytes (hq.trans (by simp))
        have hens := ensureFrom_ok ht hparents hensure
        have hlocate' : t₁.locate ⟨slashes, (part :: parents).reverse⟩ =
            .ok (part :: parents).reverse := by
          apply walk_of_parent hens.rooted hplainHere
          intro _
          simp [hens.lookup_eq]
        have hnone : t₁.lookup (part :: parents).reverse = none := by
          rw [hens.lookup_eq, if_neg, hl]
          simpa using not_append_prefix_self parents.reverse part
        refine ⟨t₁.set (part :: parents).reverse .directory, ?_⟩
        simp only [ensureFrom, hmissing, hensure, makeDirectory_of_nothing hlocate' hnone]

theorem ensureDirectory_of_no_file (ht : t.Rooted) (hplain : path.IsPlain)
    (hfile : ∀ q bytes, q <+: path.parts → t.lookup q ≠ some (.file bytes)) :
    ∃ t', t.ensureDirectory path = (t', .ok ()) :=
  ensureFrom_of_no_file ht path.slashes (by simpa [Path.IsPlain] using hplain)
    (by simpa using hfile)

theorem le_foldl_max (ns : List Nat) (m : Nat) :
    m ≤ ns.foldl max m ∧ ∀ n ∈ ns, n ≤ ns.foldl max m := by
  induction ns generalizing m with
  | nil => simp
  | cons n ns ih =>
    obtain ⟨hm, hns⟩ := ih (max m n)
    refine ⟨by simpa using (Nat.le_max_left m n).trans hm, ?_⟩
    intro k hk
    rcases List.mem_cons.mp hk with rfl | hk
    · exact (Nat.le_max_right m k).trans hm
    · exact hns k hk

theorem le_longest {ns : List Nat} {n : Nat} (h : n ∈ ns) : n ≤ longest ns :=
  (le_foldl_max ns 0).2 n h

theorem length_temporaryName (t : Tree) (name : String) :
    longest (t.entries.map fun e => (e.1.getLast?.getD "").length) <
      (t.temporaryName name).length := by
  have hdot : (".").length = 1 := rfl
  simp only [temporaryName, String.length_append, String.length_ofList, List.length_replicate, hdot]
  omega

/-- The temporary name is longer than any name that something in the tree has. -/
theorem lookup_temporaryName (directory : Place) (name : String) :
    t.lookup (directory ++ [t.temporaryName name]) = none := by
  cases hl : t.lookup (directory ++ [t.temporaryName name]) with
  | none => rfl
  | some e =>
    have hmem := mem_of_lookup (by simp) hl
    have hlong := le_longest (List.mem_map_of_mem (f := fun e => (e.1.getLast?.getD "").length) hmem)
    simp only [List.getLast?_concat, Option.getD_some] at hlong
    exact absurd (length_temporaryName t name) (by omega)

/-- Every temporary name that is chosen is new in its directory. -/
def Fresh (temporary : Tree → Place → String) : Prop :=
  ∀ t directory, lookup t (directory ++ [temporary t directory]) = none

theorem fresh_temporaryName (name : String) : Fresh fun t _ => t.temporaryName name :=
  fun _ directory => lookup_temporaryName directory name

/-- A step that may change what is at one path, and nothing that is read at paths apart from it. -/
structure Confined (path : Path) (t t' : Tree) : Prop where
  rooted : t'.Rooted
  read_eq : ∀ other : Path, other.IsPlain → other.Apart path → t'.read other = t.read other

theorem Confined.refl (ht : t.Rooted) : Confined path t t :=
  ⟨ht, fun _ _ _ => rfl⟩

/-- What writing a file comes to: the file and the directories above it are there, and nothing else
changes. -/
structure Wrote (t : Tree) (path : Path) (bytes : ByteArray) (t' : Tree) : Prop where
  named : path.name ≠ "" ∧ path.name ≠ ".."
  lookup_eq : ∀ q, t'.lookup q =
    if q = path.parts then some (.file bytes)
    else if q <+: path.parts then some .directory
    else t.lookup q
  no_directory : t.lookup path.parts ≠ some .directory
  no_file : ∀ q bytes, q <+: path.parts → q ≠ path.parts → t.lookup q ≠ some (.file bytes)

theorem Wrote.rooted (ht : t.Rooted) (h : Wrote t path bytes t') : t'.Rooted := by
  rw [rooted_iff]
  intro p name e he
  rw [h.lookup_eq] at he ⊢
  have hbelow (heq : p ++ [name] <+: path.parts) : p ≠ path.parts ∧ p <+: path.parts := by
    refine ⟨?_, (List.prefix_append _ _).trans heq⟩
    intro hp
    exact not_append_prefix_self p name (by simpa [← hp] using heq)
  split at he
  · next heq =>
    obtain ⟨hne, hpre⟩ := hbelow (heq ▸ List.prefix_refl _)
    simp [hne, hpre]
  · split at he
    · next hpre =>
      obtain ⟨hne, hpre⟩ := hbelow hpre
      simp [hne, hpre]
    · have hp : t.lookup p = some .directory := rooted_iff.mp ht p name e he
      have hne : p ≠ path.parts := by
        intro heq
        exact h.no_directory (heq ▸ hp)
      rw [if_neg hne, hp, ite_self]

theorem Wrote.read (ht : t.Rooted) (hplain : path.IsPlain) (h : Wrote t path bytes t') :
    t'.read path = .ok bytes := by
  rw [read_ok (h.rooted ht) hplain, h.lookup_eq, if_pos rfl]

theorem Wrote.confined (ht : t.Rooted) (h : Wrote t path bytes t') : Confined path t t' := by
  refine ⟨h.rooted ht, ?_⟩
  intro other hplain hapart
  apply read_eq_of_agree ht (h.rooted ht) hplain
  · rw [h.lookup_eq, if_neg, if_neg hapart.1]
    intro heq
    exact hapart.1 (heq ▸ List.prefix_refl _)
  · intro q old hq
    have hne : q ≠ path.parts := by
      intro heq
      exact hapart.2 (heq ▸ hq)
    rw [h.lookup_eq, if_neg hne]
    split
    · next hpre => simp [h.no_file q old hpre hne]
    · rfl

/-- Writing what a file holds changes nothing. -/
theorem Wrote.unchanged (ht : t.Rooted) (h : Wrote t path bytes t')
    (hold : t.lookup path.parts = some (.file bytes)) : t'.lookup = t.lookup := by
  funext q
  rw [h.lookup_eq]
  split
  · next heq => rw [heq, hold]
  · next hne =>
    split
    · next hpre => exact (ht.above hold hpre hne).symm
    · rfl

theorem write_of_locate (h : t.locate path = .ok p) : t.write path bytes =
    if t.lookup p = some .directory then .error .isDirectory else .ok (t.set p (.file bytes)) := by
  rw [write, h]
  cases hl : t.lookup p with
  | none => simp [bind, Except.bind, hl, pure, Except.pure]
  | some e =>
    cases e <;>
      simp [bind, Except.bind, hl, pure, Except.pure, throw, throwThe, MonadExceptOf.throw]

theorem of_write_ok (h : t.write path bytes = .ok t') :
    t.locate path = .ok path.place ∧ t.lookup path.place ≠ some .directory ∧
      t' = t.set path.place (.file bytes) := by
  cases hlocate : t.locate path with
  | error fault =>
    rw [write, hlocate] at h
    contradiction
  | ok p =>
    obtain rfl := locate_ok hlocate
    rw [write_of_locate hlocate] at h
    split at h
    · contradiction
    · next hold =>
      cases h
      exact ⟨rfl, hold, rfl⟩

/-- Putting a fresh file at a place and taking it away again leaves all as it was. -/
theorem lookup_erase_set (hp : p ≠ []) (hfresh : t.lookup p = none) (e : Entry) :
    ((t.set p e).erase p).lookup = t.lookup := by
  funext q
  rw [lookup_erase hp, lookup_set hp]
  by_cases hq : q = p
  · simp [hq, hfresh]
  · simp [hq]

theorem parts_eq_of_name (h : path.name ≠ "") : ∃ last, path.parts = path.parent.parts ++ [last] := by
  have hne : path.parts ≠ [] := by
    intro hnil
    simp [Path.name, hnil] at h
  exact ⟨path.parts.getLast hne, (List.dropLast_append_getLast hne).symm⟩

theorem not_prefix_parent (h : path.name ≠ "") : ¬ path.parts <+: path.parent.parts := by
  obtain ⟨last, hparts⟩ := parts_eq_of_name h
  rw [hparts]
  exact not_append_prefix_self _ last

theorem parent_plain (hplain : path.IsPlain) : path.parent.IsPlain :=
  fun hmem => hplain (List.dropLast_subset _ hmem)

/-- The temporary file is gone when the target is written. -/
theorem rename_temporary (bytes : ByteArray) {source : Place} (hfresh : t.lookup source = none)
    (hnamed : path.name ≠ "" ∧ path.name ≠ "..") :
    ∃ t₁ : Tree, t₁.lookup = t.lookup ∧
      (t.set source (.file bytes)).rename source bytes path = t₁.write path bytes := by
  have hne : source ≠ [] := by
    rintro rfl
    simp [lookup_nil] at hfresh
  refine ⟨(t.set source (.file bytes)).erase source, lookup_erase_set hne hfresh _, ?_⟩
  rw [rename, if_neg]
  simpa [not_or] using hnamed

/-- The file, written where its directory was seen to. -/
theorem Ensured.wrote {t₁ t₂ : Tree} (h : Ensured t path.parent.parts t₁)
    (hsame : t₂.lookup = t₁.lookup) (hnamed : path.name ≠ "" ∧ path.name ≠ "..")
    (hold : t₂.lookup path.parts ≠ some .directory) :
    Wrote t path bytes (t₂.set path.parts (.file bytes)) := by
  obtain ⟨last, hparts⟩ := parts_eq_of_name hnamed.1
  have hnot := not_prefix_parent hnamed.1
  have hbelow (q : Place) (hne : q ≠ path.parts) :
      q <+: path.parts ↔ q <+: path.parent.parts := by
    rw [hparts] at hne ⊢
    simp [List.prefix_concat_iff, hne]
  have hne : path.parts ≠ [] := by simp [hparts]
  refine ⟨hnamed, ?_, ?_, ?_⟩
  · intro q
    rw [lookup_set hne, hsame, h.lookup_eq]
    by_cases hq : q = path.parts
    · rw [if_pos hq, if_pos hq]
    · simp only [if_neg hq, hbelow q hq]
  · rwa [hsame, h.lookup_eq, if_neg hnot] at hold
  · intro q old hq hne
    exact h.no_file q old ((hbelow q hne).mp hq)

/-- Nothing is in the way of a file at a path. -/
structure Clear (t : Tree) (path : Path) : Prop where
  named : path.name ≠ "" ∧ path.name ≠ ".."
  no_directory : t.lookup path.parts ≠ some .directory
  no_file : ∀ q bytes, q <+: path.parent.parts → t.lookup q ≠ some (.file bytes)

theorem Wrote.clear (h : Wrote t path bytes t') : t.Clear path := by
  refine ⟨h.named, h.no_directory, ?_⟩
  intro q old hq
  apply h.no_file q old (hq.trans (List.dropLast_prefix _))
  rintro rfl
  exact not_prefix_parent h.named.1 hq

theorem clear_of_file (ht : t.Rooted) (hnamed : path.name ≠ "" ∧ path.name ≠ "..")
    {old : ByteArray} (hold : t.lookup path.parts = some (.file old)) : t.Clear path := by
  refine ⟨hnamed, by simp [hold], ?_⟩
  intro q other hq
  have hne : q ≠ path.parts := by
    rintro rfl
    exact not_prefix_parent hnamed.1 hq
  rw [ht.above hold (hq.trans (List.dropLast_prefix _)) hne]
  simp

section ReplaceBy

variable {temporary : Tree → Place → String}

theorem replaceBy_ok (hfresh : Fresh temporary) (ht : t.Rooted) (hplain : path.IsPlain)
    (h : t.replaceBy temporary none path bytes = (t', .ok ())) : Wrote t path bytes t' := by
  unfold replaceBy at h
  simp only [stopsAt] at h
  split at h
  · cases h
  · next t₁ hensure =>
    have hens := ensureDirectory_ok ht (parent_plain hplain) hensure
    split at h
    · contradiction
    · cases h
    · next directory _ hlocate =>
      split at h
      · next t₂ hrename =>
        cases h
        have hnamed : path.name ≠ "" ∧ path.name ≠ ".." := by
          by_contra hbad
          rw [rename, if_pos (by tauto)] at hrename
          contradiction
        obtain ⟨t₃, hsame, hwrite⟩ := rename_temporary bytes (hfresh t₁ directory) hnamed
        rw [hwrite] at hrename
        obtain ⟨hplace, hold, rfl⟩ := of_write_ok hrename
        rw [(eq_of_walk_ok hplain hplace).1] at hold ⊢
        exact hens.wrote hsame hnamed hold
      · cases h

/-- Where nothing is in the way, a file is written. -/
theorem replaceBy_of_clear (hfresh : Fresh temporary) (bytes : ByteArray) (ht : t.Rooted)
    (hplain : path.IsPlain) (hclear : t.Clear path) :
    ∃ t', t.replaceBy temporary none path bytes = (t', .ok ()) := by
  obtain ⟨t₁, hensure⟩ := ensureDirectory_of_no_file ht (parent_plain hplain) hclear.no_file
  have hens := ensureDirectory_ok ht (parent_plain hplain) hensure
  have hparent : t₁.lookup path.parent.parts = some .directory := by
    rw [hens.lookup_eq, if_pos (List.prefix_refl _)]
  have hdirectory := locate_of_lookup hens.rooted (parent_plain hplain) hparent
  obtain ⟨t₂, hsame, hrename⟩ :=
    rename_temporary bytes (hfresh t₁ path.parent.parts) hclear.named
  have hold : t₂.lookup path.parts ≠ some .directory := by
    rw [hsame, hens.lookup_eq, if_neg (not_prefix_parent hclear.named.1)]
    exact hclear.no_directory
  have hlocate : t₂.locate path = .ok path.parts := by
    rw [locate_congr hsame]
    exact walk_of_parent hens.rooted hplain fun _ => hparent
  have hwrite : t₂.write path bytes = .ok (t₂.set path.parts (.file bytes)) := by
    rw [write_of_locate hlocate, if_neg hold]
  refine ⟨t₂.set path.parts (.file bytes), ?_⟩
  unfold replaceBy
  simp only [stopsAt, hensure, hdirectory, hrename, hwrite]

end ReplaceBy

theorem remove_of_locate (h : t.locate path = .ok p) : t.remove path =
    match t.lookup p with
    | none => .error .missing
    | some .directory => .error .isDirectory
    | some (.file _) => .ok (t.erase p) := by
  rw [remove, h]
  rfl

theorem of_remove_ok (h : t.remove path = .ok t') :
    t.locate path = .ok path.place ∧ (∃ old, t.lookup path.place = some (.file old)) ∧
      t' = t.erase path.place := by
  cases hlocate : t.locate path with
  | error fault =>
    rw [remove, hlocate] at h
    contradiction
  | ok p =>
    obtain rfl := locate_ok hlocate
    rw [remove_of_locate hlocate] at h
    split at h
    · contradiction
    · contradiction
    · next old hfile =>
      cases h
      exact ⟨rfl, ⟨old, hfile⟩, rfl⟩

/-- What taking a file away comes to: nothing is at its path, and all else stays. -/
structure Removed (t : Tree) (path : Path) (t' : Tree) : Prop where
  lookup_eq : ∀ q, t'.lookup q = if q = path.parts then none else t.lookup q
  file : ∃ bytes, t.lookup path.parts = some (.file bytes)
  rooted : t'.Rooted

theorem remove_ok (ht : t.Rooted) (hplain : path.IsPlain) (h : t.remove path = .ok t') :
    Removed t path t' := by
  obtain ⟨hlocate, ⟨bytes, hfile⟩, rfl⟩ := of_remove_ok h
  rw [(eq_of_walk_ok hplain hlocate).1] at hfile ⊢
  have hold : t.lookup path.parts ≠ some .directory := by simp [hfile]
  have hne : path.parts ≠ [] := ne_nil_of_lookup hold
  exact ⟨fun q => lookup_erase hne, ⟨bytes, hfile⟩, ht.erase hne hold⟩

theorem Removed.confined (ht : t.Rooted) (h : Removed t path t') : Confined path t t' := by
  refine ⟨h.rooted, ?_⟩
  intro other hplain hapart
  have hne (q : Place) (hq : q <+: other.parts) : q ≠ path.parts := by
    intro heq
    exact hapart.2 (heq ▸ hq)
  apply read_eq_of_agree ht h.rooted hplain
  · rw [h.lookup_eq, if_neg (hne _ (List.prefix_refl _))]
  · intro q bytes hq
    rw [h.lookup_eq, if_neg (hne q hq)]

theorem Removed.read (ht : t.Rooted) (hplain : path.IsPlain) (h : Removed t path t') :
    t'.read path = .error .missing := by
  obtain ⟨bytes, hfile⟩ := h.file
  apply read_of_nothing h.rooted hplain
  · rw [h.lookup_eq, if_pos rfl]
  · intro q old hq
    rw [h.lookup_eq]
    split
    · simp
    · next hne =>
      rw [ht.above hfile hq hne]
      simp

end ProductLock.Tree
