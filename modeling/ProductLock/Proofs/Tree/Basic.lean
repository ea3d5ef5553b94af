import Mathlib.Data.List.Infix
import ProductLock.Tree.Basic

namespace ProductLock

/-- Where parts lead from a place on, if nothing is in the way. -/
def Place.follow (here : Place) : List String → Place
  | [] => here
  | part :: parts => follow (if part = ".." then here.dropLast else here ++ [part]) parts

namespace Path

/-- The place that a path names. -/
def place (path : Path) : Place :=
  Place.follow [] path.parts

/-- A path without a step up. -/
def IsPlain (p : Path) : Prop :=
  ".." ∉ p.parts

instance (p : Path) : Decidable p.IsPlain :=
  inferInstanceAs (Decidable (".." ∉ p.parts))

/-- Neither path names the other's file or leads through it. -/
def Apart (p q : Path) : Prop :=
  ¬ p.parts <+: q.parts ∧ ¬ q.parts <+: p.parts

instance (p q : Path) : Decidable (p.Apart q) :=
  inferInstanceAs (Decidable (_ ∧ _))

end Path

namespace Tree

variable {t t' : Tree} {p q here : Place} {e : Entry} {path : Path}

theorem lookup_nil (t : Tree) : t.lookup [] = some .directory :=
  if_pos rfl

theorem ne_nil_of_lookup (h : t.lookup p ≠ some .directory) : p ≠ [] := by
  rintro rfl
  exact h (lookup_nil t)

theorem lookup_of_ne_nil (h : p ≠ []) :
    t.lookup p = (t.entries.find? fun e => e.1 == p).map Prod.snd :=
  if_neg h

theorem lookup_erase (hp : p ≠ []) : (t.erase p).lookup q = if q = p then none else t.lookup q := by
  by_cases hq : q = []
  · subst hq
    rw [lookup_nil, lookup_nil, if_neg (Ne.symm hp)]
  · rw [lookup_of_ne_nil hq, lookup_of_ne_nil hq, erase, List.find?_filter]
    by_cases hqp : q = p
    · subst hqp
      simp
    · rw [if_neg hqp]
      congr 2
      funext e
      by_cases he : e.1 = q
      · simp [he, hqp]
      · simp [he]

theorem lookup_set (hp : p ≠ []) :
    (t.set p e).lookup q = if q = p then some e else t.lookup q := by
  by_cases hqp : q = p
  · subst hqp
    simp [lookup_of_ne_nil hp, set]
  · have hne : (p == q) = false := by simpa using Ne.symm hqp
    have herase := lookup_erase (t := t) (q := q) hp
    rw [if_neg hqp] at herase ⊢
    rw [← herase]
    simp [lookup, set, hne]

theorem mem_of_lookup (hp : p ≠ []) (h : t.lookup p = some e) : (p, e) ∈ t.entries := by
  rw [lookup_of_ne_nil hp] at h
  obtain ⟨entry, hfound, rfl⟩ := Option.map_eq_some_iff.mp h
  have hplace : entry.1 = p := by simpa using List.find?_some hfound
  rw [← hplace]
  exact List.mem_of_find?_eq_some hfound

theorem lookup_ne_none_of_mem (h : (p, e) ∈ t.entries) : t.lookup p ≠ none := by
  by_cases hp : p = []
  · subst hp
    simp [lookup_nil]
  · rw [lookup_of_ne_nil hp, ne_eq, Option.map_eq_none_iff, List.find?_eq_none]
    exact fun hnone => hnone (p, e) h (by simp)

/-- Everything lies in a directory of the tree. -/
def Rooted (t : Tree) : Prop :=
  ∀ e ∈ t.entries, t.lookup e.1.dropLast = some .directory

instance (t : Tree) : Decidable t.Rooted :=
  inferInstanceAs (Decidable (∀ e ∈ t.entries, t.lookup e.1.dropLast = some .directory))

theorem rooted_iff : t.Rooted ↔
    ∀ p name e, t.lookup (p ++ [name]) = some e → t.lookup p = some .directory := by
  constructor
  · intro h p name e he
    simpa using h _ (mem_of_lookup (by simp) he)
  · intro h entry hentry
    by_cases hp : entry.1 = []
    · rw [hp]
      exact lookup_nil t
    · have hne : t.lookup entry.1 ≠ none := lookup_ne_none_of_mem hentry
      obtain ⟨e, he⟩ := Option.ne_none_iff_exists'.mp hne
      rw [← List.dropLast_append_getLast hp] at he
      exact h _ _ e he

theorem Rooted.congr (ht : t.Rooted) (h : t'.lookup = t.lookup) : t'.Rooted := by
  rw [rooted_iff] at ht ⊢
  simpa only [h] using ht

/-- What lies above something in the tree is a directory. -/
theorem Rooted.above (ht : t.Rooted) (h : t.lookup p = some e) (hq : q <+: p) (hne : q ≠ p) :
    t.lookup q = some .directory := by
  induction p using List.reverseRecOn generalizing e with
  | nil => exact absurd (List.prefix_nil.mp hq) hne
  | append_singleton p name ih =>
    have hp : t.lookup p = some .directory := rooted_iff.mp ht p name e h
    rcases List.prefix_concat_iff.mp hq with hq | hq
    · exact absurd hq hne
    · by_cases heq : q = p
      · rw [heq]
        exact hp
      · exact ih hp hq heq

theorem Rooted.set (ht : t.Rooted) (hp : p ≠ []) (hparent : t.lookup p.dropLast = some .directory)
    (hold : t.lookup p ≠ some .directory) : (t.set p e).Rooted := by
  rw [rooted_iff]
  intro q name f h
  rw [lookup_set hp] at h ⊢
  split at h
  · next heq =>
    subst heq
    simpa using hparent
  · have hq := rooted_iff.mp ht q name f h
    rw [if_neg, hq]
    intro heq
    exact hold (heq ▸ hq)

theorem Rooted.erase (ht : t.Rooted) (hp : p ≠ []) (hold : t.lookup p ≠ some .directory) :
    (t.erase p).Rooted := by
  rw [rooted_iff]
  intro q name f h
  rw [lookup_erase hp] at h ⊢
  split at h
  · contradiction
  · have hq := rooted_iff.mp ht q name f h
    rw [if_neg, hq]
    intro heq
    exact hold (heq ▸ hq)

theorem walk_congr (h : t'.lookup = t.lookup) (here : Place) (parts : List String) :
    t'.walk here parts = t.walk here parts := by
  induction parts generalizing here with
  | nil => rfl
  | cons part parts ih => simp only [walk, h, ih]

theorem walk_ok {parts : List String} (h : t.walk here parts = .ok p) : p = here.follow parts := by
  induction parts generalizing here with
  | nil =>
    cases h
    rfl
  | cons part parts ih =>
    rw [walk] at h
    split at h
    · contradiction
    · contradiction
    · exact ih h

theorem locate_ok (h : t.locate path = .ok p) : p = path.place :=
  walk_ok h

/-- The last part of a path is a step from where the others lead. -/
theorem walk_concat (here : Place) (parts : List String) (last : String) :
    t.walk here (parts ++ [last]) = t.walk here parts >>= fun p => t.walk p [last] := by
  induction parts generalizing here with
  | nil => rfl
  | cons part parts ih =>
    simp only [List.cons_append, walk]
    split
    · rfl
    · rfl
    · rw [ih]
      rfl

theorem walk_one (here : Place) {last : String} (hlast : last ≠ "..") : t.walk here [last] =
    match t.lookup here with
    | none => .error .missing
    | some (.file _) => .error .notDirectory
    | some .directory => .ok (here ++ [last]) := by
  rw [walk]
  split <;> simp_all [walk]

/-- Without steps up, a path leads to the place of its parts or nowhere. -/
theorem eq_of_walk_ok {parts : List String} (hplain : ".." ∉ parts) (h : t.walk [] parts = .ok p) :
    p = parts ∧ (parts ≠ [] → t.lookup parts.dropLast = some .directory) := by
  induction parts using List.reverseRecOn generalizing p with
  | nil =>
    cases h
    exact ⟨rfl, fun hne => absurd rfl hne⟩
  | append_singleton parts last ih =>
    simp only [List.mem_append, List.mem_singleton, not_or] at hplain
    rw [walk_concat] at h
    cases hinit : t.walk [] parts with
    | error fault =>
      rw [hinit] at h
      contradiction
    | ok r =>
      obtain ⟨rfl, -⟩ := ih hplain.1 hinit
      rw [hinit] at h
      change t.walk r [last] = .ok p at h
      rw [walk_one _ (Ne.symm hplain.2)] at h
      split at h
      · contradiction
      · contradiction
      · next hdir =>
        cases h
        exact ⟨rfl, fun _ => by simpa using hdir⟩

/-- Below a directory every step leads on. -/
theorem walk_of_parent (ht : t.Rooted) {parts : List String} (hplain : ".." ∉ parts)
    (h : parts ≠ [] → t.lookup parts.dropLast = some .directory) :
    t.walk [] parts = .ok parts := by
  induction parts using List.reverseRecOn with
  | nil => rfl
  | append_singleton parts last ih =>
    simp only [List.mem_append, List.mem_singleton, not_or] at hplain
    have hdir : t.lookup parts = some .directory := by simpa using h (by simp)
    have habove : parts ≠ [] → t.lookup parts.dropLast = some .directory := by
      intro hne
      rw [← List.dropLast_append_getLast hne] at hdir
      exact rooted_iff.mp ht _ _ _ hdir
    rw [walk_concat, ih hplain.1 habove]
    change t.walk parts [last] = .ok (parts ++ [last])
    rw [walk_one _ (Ne.symm hplain.2), hdir]

theorem locate_of_lookup (ht : t.Rooted) (hplain : path.IsPlain) (h : t.lookup path.parts = some e) :
    t.locate path = .ok path.parts := by
  apply walk_of_parent ht hplain
  intro hne
  rw [← List.dropLast_append_getLast hne] at h
  exact rooted_iff.mp ht _ _ _ h

theorem locate_congr (h : t'.lookup = t.lookup) (path : Path) : t'.locate path = t.locate path :=
  walk_congr h [] path.parts

theorem read_congr (h : t'.lookup = t.lookup) (path : Path) : t'.read path = t.read path := by
  simp only [read, locate_congr h, h]

theorem read_of_locate (h : t.locate path = .ok p) : t.read path =
    match t.lookup p with
    | none => .error .missing
    | some .directory => .error .isDirectory
    | some (.file bytes) => .ok bytes := by
  rw [read, h]
  rfl

theorem read_of_fault {fault : FileFault} (h : t.locate path = .error fault) :
    t.read path = .error fault := by
  rw [read, h]
  rfl

theorem read_ok (ht : t.Rooted) (hplain : path.IsPlain) {bytes : ByteArray} :
    t.read path = .ok bytes ↔ t.lookup path.parts = some (.file bytes) := by
  constructor
  · intro h
    cases hl : t.locate path with
    | error fault =>
      rw [read_of_fault hl] at h
      contradiction
    | ok p =>
      obtain ⟨rfl, -⟩ := eq_of_walk_ok hplain hl
      rw [read_of_locate hl] at h
      split at h
      · contradiction
      · contradiction
      · next hfile =>
        cases h
        exact hfile
  · intro h
    rw [read_of_locate (locate_of_lookup ht hplain h), h]

/-- Below a file there is nothing to be read. -/
theorem walk_of_file (ht : t.Rooted) {parts : List String} (hplain : ".." ∉ parts)
    {bytes : ByteArray} (hq : t.lookup q = some (.file bytes)) (hpre : q <+: parts)
    (hne : q ≠ parts) : t.walk [] parts = .error .notDirectory := by
  induction parts using List.reverseRecOn with
  | nil => exact absurd (List.prefix_nil.mp hpre) hne
  | append_singleton parts last ih =>
    simp only [List.mem_append, List.mem_singleton, not_or] at hplain
    rw [walk_concat]
    rcases List.prefix_concat_iff.mp hpre with heq | hpre
    · exact absurd heq hne
    · by_cases heq : q = parts
      · subst heq
        have hself : t.locate ⟨0, q⟩ = .ok q := locate_of_lookup ht hplain.1 hq
        change t.walk [] q = .ok q at hself
        rw [hself]
        change t.walk q [last] = .error .notDirectory
        rw [walk_one _ (Ne.symm hplain.2), hq]
      · rw [ih hplain.1 hpre heq]
        rfl

/-- Where nothing is, and no file above, nothing is found. -/
theorem read_of_nothing (ht : t.Rooted) (hplain : path.IsPlain) (h : t.lookup path.parts = none)
    (hfile : ∀ q bytes, q <+: path.parts → t.lookup q ≠ some (.file bytes)) :
    t.read path = .error .missing := by
  obtain ⟨slashes, parts⟩ := path
  induction parts using List.reverseRecOn with
  | nil => simp [lookup_nil] at h
  | append_singleton parts last ih =>
    have hinit : ".." ∉ parts ∧ ".." ≠ last := by
      simpa [Path.IsPlain, not_or] using hplain
    have hwalk := walk_concat (t := t) [] parts last
    cases hp : t.lookup parts with
    | none =>
      have hmissing : t.read ⟨slashes, parts⟩ = .error .missing :=
        ih hinit.1 hp fun q bytes hq => hfile q bytes (hq.trans (List.prefix_append _ _))
      cases hl : t.locate ⟨slashes, parts⟩ with
      | error fault =>
        rw [read_of_fault hl] at hmissing
        change t.walk [] parts = .error fault at hl
        rw [hl] at hwalk
        rw [← hmissing]
        exact read_of_fault hwalk
      | ok r =>
        obtain ⟨rfl, -⟩ := eq_of_walk_ok hinit.1 hl
        change t.walk [] r = .ok r at hl
        rw [hl] at hwalk
        change _ = t.walk r [last] at hwalk
        rw [walk_one _ (Ne.symm hinit.2), hp] at hwalk
        exact read_of_fault hwalk
    | some e =>
      cases e with
      | file bytes => exact absurd hp (hfile parts bytes (List.prefix_append _ _))
      | directory =>
        have hl : t.locate ⟨slashes, parts ++ [last]⟩ = .ok (parts ++ [last]) :=
          walk_of_parent ht hplain (by simpa using hp)
        rw [read_of_locate hl]
        change (match t.lookup (parts ++ [last]) with | _ => _) = _
        rw [h]

/-- What is read at a path depends on its own place and on the files above it. -/
theorem read_eq_of_agree (ht : t.Rooted) (ht' : t'.Rooted) (hplain : path.IsPlain)
    (h : t'.lookup path.parts = t.lookup path.parts)
    (hfile : ∀ q bytes, q <+: path.parts →
      (t'.lookup q = some (.file bytes) ↔ t.lookup q = some (.file bytes))) :
    t'.read path = t.read path := by
  cases hl : t.lookup path.parts with
  | some e =>
    rw [read_of_locate (locate_of_lookup ht hplain hl),
      read_of_locate (locate_of_lookup ht' hplain (h.trans hl)), h]
  | none =>
    by_cases hblocked : ∃ q bytes, q <+: path.parts ∧ t.lookup q = some (.file bytes)
    · obtain ⟨q, bytes, hq, hfound⟩ := hblocked
      have hne : q ≠ path.parts := by
        intro heq
        rw [heq, hl] at hfound
        contradiction
      rw [read_of_fault (walk_of_file ht hplain hfound hq hne),
        read_of_fault (walk_of_file ht' hplain ((hfile q bytes hq).mpr hfound) hq hne)]
    · have hnone (q : Place) (bytes : ByteArray) (hq : q <+: path.parts) :
          t.lookup q ≠ some (.file bytes) := fun hfound => hblocked ⟨q, bytes, hq, hfound⟩
      rw [read_of_nothing ht hplain hl hnone, read_of_nothing ht' hplain (h.trans hl)]
      intro q bytes hq hfound
      exact hnone q bytes hq ((hfile q bytes hq).mp hfound)

end Tree

end ProductLock
