import ProductLock.Proofs.Numeral
import ProductLock.Version.Grammar

namespace ProductLock.Version

def Component.write : Component → List Char
  | .number n => Numeral.write n
  | .any => ['x']

def Matcher.text (m : Matcher) : String :=
  String.ofList (m.major.write ++ '.' :: m.minor.write ++ '.' :: m.patch.write)

/-- A build has a hash, in lowercase hexadecimal digits. -/
def Stage.Proper : Stage → Prop
  | .commits _ hash => hash.toList ≠ [] ∧ hash.toList.all isHashChar = true
  | _ => True

theorem expect_ok {c : Char} {cs rest : List Char} :
    expect c cs = some rest ↔ cs = c :: rest := by
  cases cs with
  | nil => simp [expect]
  | cons d ds =>
    simp only [expect, List.cons.injEq]
    split <;> simp_all

theorem expect_self (c : Char) (cs : List Char) : expect c (c :: cs) = some cs :=
  if_pos rfl

theorem stops_point (cs : List Char) : Numeral.Stops ('.' :: cs) :=
  Numeral.stops_cons rfl

theorem of_readStage {cs : List Char} {stage : Stage} (h : readStage cs = some stage) :
    stage.Proper ∧ cs = stage.write := by
  unfold readStage at h
  split at h
  · cases h
    exact ⟨trivial, rfl⟩
  · split at h
    · next n hn =>
      cases h
      exact ⟨trivial, by simp [Stage.write, (Numeral.write_of_read hn).1]⟩
    · contradiction
  · split at h
    · next n hn =>
      cases h
      exact ⟨trivial, by simp [Stage.write, (Numeral.write_of_read hn).1]⟩
    · contradiction
  · split at h
    · next n hash hn =>
      split at h
      · next hhash =>
        cases h
        refine ⟨by simpa [Stage.Proper] using hhash, ?_⟩
        simp [Stage.write, (Numeral.write_of_read hn).1]
      · contradiction
    · contradiction
  · contradiction

theorem readStage_write {stage : Stage} (h : stage.Proper) :
    readStage stage.write = some stage := by
  have hend (n : Nat) : Numeral.read (Numeral.write n) = some (n, []) := by
    simpa using Numeral.read_write n Numeral.stops_nil
  cases stage with
  | release => rfl
  | rc n => simp [Stage.write, readStage, hend]
  | beta n => simp [Stage.write, readStage, hend]
  | commits n hash =>
    have hwrite : (Stage.commits n hash).write =
        '-' :: (Numeral.write n ++ '-' :: 'g' :: hash.toList) := by
      simp [Stage.write]
    have hread : Numeral.read (Numeral.write n ++ '-' :: 'g' :: hash.toList) =
        some (n, '-' :: 'g' :: hash.toList) := Numeral.read_write n (Numeral.stops_cons rfl)
    have hproper : hash.toList ≠ [] ∧ hash.toList.all isHashChar = true := h
    rw [hwrite, readStage]
    · simp only [hread]
      rw [if_pos hproper, String.ofList_toList]
    -- the number in front keeps a build apart from the forms that begin with a word
    · exact fun cs => Numeral.write_append_ne rfl _ _
    · exact fun cs => Numeral.write_append_ne rfl _ _

theorem readStage_ok {cs : List Char} {stage : Stage} :
    readStage cs = some stage ↔ stage.Proper ∧ cs = stage.write := by
  constructor
  · exact of_readStage
  · rintro ⟨h, rfl⟩
    exact readStage_write h

theorem stops_stage (stage : Stage) : Numeral.Stops stage.write := by
  cases stage with
  | release => exact Numeral.stops_nil
  | _ => exact Numeral.stops_cons rfl

theorem Orderable.toList_text (v : Orderable) : v.text.toList =
    Numeral.write v.major ++ '.' :: (Numeral.write v.minor ++ '.' ::
      (Numeral.write v.patch ++ v.stage.write)) := by
  simp [Orderable.text]

theorem orderable_of_proper {v : Orderable} (h : v.stage.Proper) : orderable? v.text = some v := by
  simp [orderable?, v.toList_text, Numeral.read_write _ (stops_point _), expect_self,
    Numeral.read_write _ (stops_stage v.stage), readStage_write h]

/-- Reading an orderable version undoes its writing, and reads nothing else. -/
theorem orderable_ok {s : String} {v : Orderable} :
    orderable? s = some v ↔ v.stage.Proper ∧ s = v.text := by
  constructor
  · intro h
    simp only [orderable?, Option.bind_eq_bind, Option.bind_eq_some_iff, Prod.exists, expect_ok,
      Numeral.read_ok, readStage_ok] at h
    obtain ⟨major, _, ⟨hs, _⟩, _, rfl, minor, _, ⟨rfl, _⟩, _, rfl, patch, _, ⟨rfl, _⟩, stage,
      ⟨hproper, rfl⟩, hv⟩ := h
    cases hv
    refine ⟨hproper, String.toList_inj.mp ?_⟩
    rw [hs, Orderable.toList_text]
  · rintro ⟨h, rfl⟩
    exact orderable_of_proper h

theorem text_of_orderable {s : String} {v : Orderable} (h : orderable? s = some v) : s = v.text :=
  (orderable_ok.mp h).2

theorem of_readComponent {cs rest : List Char} {k : Component}
    (h : readComponent cs = some (k, rest)) : cs = k.write ++ rest := by
  unfold readComponent at h
  split at h
  · cases h
    rfl
  · obtain ⟨⟨n, tail⟩, hn, he⟩ := Option.map_eq_some_iff.mp h
    cases he
    exact (Numeral.write_of_read hn).1

theorem readComponent_write (k : Component) {rest : List Char} (h : Numeral.Stops rest) :
    readComponent (k.write ++ rest) = some (k, rest) := by
  cases k with
  | any => rfl
  | number n =>
    rw [Component.write, readComponent]
    · rw [Numeral.read_write n h]
      rfl
    · exact fun cs => Numeral.write_append_ne rfl _ _

theorem Matcher.toList_text (m : Matcher) : m.text.toList =
    m.major.write ++ '.' :: (m.minor.write ++ '.' :: (m.patch.write ++ [])) := by
  simp [Matcher.text]

theorem of_matcher {s : String} {m : Matcher} (h : matcher? s = some m) :
    m.closed = true ∧ s = m.text := by
  simp only [matcher?, Option.bind_eq_bind, Option.bind_eq_some_iff, Prod.exists, expect_ok] at h
  obtain ⟨major, _, h₁, _, rfl, minor, _, h₂, _, rfl, patch, _, h₃, hm⟩ := h
  split at hm
  · next hend =>
    cases hm
    refine ⟨hend.2, String.toList_inj.mp ?_⟩
    rw [Matcher.toList_text, of_readComponent h₁, of_readComponent h₂, of_readComponent h₃, hend.1]
  · contradiction

theorem text_of_matcher {s : String} {m : Matcher} (h : matcher? s = some m) : s = m.text :=
  (of_matcher h).2

/-- Three components with something behind them make a matcher only if there is nothing. -/
theorem matcher_of_components {s : String} (m : Matcher) {rest : List Char}
    (hs : s.toList = m.major.write ++ '.' :: (m.minor.write ++ '.' :: (m.patch.write ++ rest)))
    (h : Numeral.Stops rest) :
    matcher? s = if rest = [] ∧ m.closed = true then some m else none := by
  simp [matcher?, hs, readComponent_write _ (stops_point _), expect_self, readComponent_write _ h]

theorem matcher_ok {s : String} {m : Matcher} :
    matcher? s = some m ↔ m.closed = true ∧ s = m.text := by
  constructor
  · exact of_matcher
  · rintro ⟨h, rfl⟩
    rw [matcher_of_components m m.toList_text Numeral.stops_nil, if_pos ⟨rfl, h⟩]

end ProductLock.Version
