import ProductLock.Proofs.Json.Limit
import ProductLock.Proofs.Recommendation.RoundTrip

namespace ProductLock.Recommendation

open Schema

theorem discover_cons_ok {source : String} {b : Option Blob} {rest : List (String × Option Blob)}
    {ds : List Dependency} : (discover ((source, b) :: rest)).result = .ok ds ↔
      ∃ part more, Contributes b part ∧ (discover rest).result = .ok more ∧ part ++ more = ds := by
  cases b with
  | none =>
    rw [discover, Plan.result_bind]
    constructor
    · intro h
      obtain ⟨_, _, h⟩ := h
      exact ⟨[], ds, .absent, h, rfl⟩
    · intro h
      obtain ⟨_, _, hpart, h, rfl⟩ := h
      cases hpart
      exact ⟨(), rfl, h⟩
  | some b =>
    rw [discover, Plan.result_bind]
    simp only [Plan.result_bind, parse_ok]
    constructor
    · intro h
      obtain ⟨part, hpart, more, hmore, h⟩ := h
      cases h
      exact ⟨part, more, hpart, hmore, rfl⟩
    · intro h
      obtain ⟨part, more, hpart, hmore, rfl⟩ := h
      exact ⟨part, hpart, more, hmore, rfl⟩

theorem discover_cons_error {source : String} {b : Option Blob}
    {rest : List (String × Option Blob)} {f : Failure}
    (h : (discover ((source, b) :: rest)).result = .error f) :
    (∃ blob, b = some blob ∧ readBlob blob = .error f) ∨ (discover rest).result = .error f := by
  cases b with
  | none =>
    rcases Plan.result_bind_error.mp h with h | ⟨_, _, h⟩
    · cases h
    · exact .inr h
  | some blob =>
    rcases Plan.result_bind_error.mp h with h | ⟨_, _, h⟩
    · exact .inl ⟨blob, rfl, parse_error.mp h⟩
    · rcases Plan.result_bind_error.mp h with h | ⟨_, _, h⟩
      · exact .inr h
      · cases h

/-- What is discovered is what the artifacts contribute, one after the other. -/
theorem discover_ok {blobs : List (String × Option Blob)} {ds : List Dependency} :
    (discover blobs).result = .ok ds ↔ ∃ parts,
      List.Forall₂ (fun b part => Contributes b.2 part) blobs parts ∧ parts.flatten = ds := by
  induction blobs generalizing ds with
  | nil =>
    constructor
    · intro h
      cases h
      exact ⟨[], .nil, rfl⟩
    · intro h
      obtain ⟨_, hparts, rfl⟩ := h
      cases hparts
      rfl
  | cons b blobs ih =>
    rw [discover_cons_ok]
    constructor
    · intro h
      obtain ⟨part, more, hpart, hmore, rfl⟩ := h
      obtain ⟨parts, hparts, rfl⟩ := ih.mp hmore
      exact ⟨part :: parts, .cons hpart hparts, rfl⟩
    · intro h
      obtain ⟨_, hparts, rfl⟩ := h
      cases hparts with
      | cons hpart hparts => exact ⟨_, _, hpart, ih.mpr ⟨_, hparts, rfl⟩, rfl⟩

theorem discover_error {blobs : List (String × Option Blob)} {f : Failure}
    (h : (discover blobs).result = .error f) :
    ∃ b ∈ blobs, ∃ blob, b.2 = some blob ∧ readBlob blob = .error f := by
  induction blobs with
  | nil => cases h
  | cons b blobs ih =>
    rcases discover_cons_error h with ⟨blob, hb, hblob⟩ | h
    · exact ⟨b, List.mem_cons_self, blob, hb, hblob⟩
    · obtain ⟨b', hb', hblob⟩ := ih h
      exact ⟨b', List.mem_cons_of_mem b hb', hblob⟩

/-- Discovery ends with what the artifacts contribute, of whatever kind their blobs are, unless an
integer that is too long stands in one of them and stops its reading. -/
theorem discover_result (blobs : List (String × Option Blob)) :
    ((∃ ds, (discover blobs).result = .ok ds) ↔
      ∀ b ∈ blobs, ∀ s n, b.2 = some (.text s) → Json.parse s ≠ .error (.digits n)) ∧
    (∀ ds, (discover blobs).result = .ok ds ↔ ∃ parts,
      List.Forall₂ (fun b part => Contributes b.2 part) blobs parts ∧ parts.flatten = ds) ∧
    ∀ f, (discover blobs).result = .error f → ∃ n, f = .digits (some n) ∧
      Numeral.digitLimit < n ∧ ∃ b ∈ blobs, ∃ s, b.2 = some (.text s) ∧ Json.HasRun n s.toList := by
  have hfails : ∀ f, (discover blobs).result = .error f → ∃ b ∈ blobs, ∃ s n,
      b.2 = some (.text s) ∧ Json.parse s = .error (.digits n) ∧ f = .digits (some n) := by
    intro f h
    obtain ⟨b, hb, blob, hblob, hread⟩ := discover_error h
    obtain ⟨s, n, rfl, hn, hf⟩ := readBlob_error.mp hread
    exact ⟨b, hb, s, n, hblob, hn, hf⟩
  refine ⟨⟨?_, ?_⟩, fun ds => discover_ok, ?_⟩
  · intro h b hb s n hblob
    obtain ⟨ds, hds⟩ := h
    obtain ⟨parts, hparts, _⟩ := discover_ok.mp hds
    obtain ⟨part, hpart⟩ := forall₂_left hparts b hb
    rw [hblob] at hpart
    exact hpart.readable
  · intro h
    cases hresult : (discover blobs).result with
    | ok ds => exact ⟨ds, rfl⟩
    | error f =>
      obtain ⟨b, hb, s, n, hblob, hn, _⟩ := hfails f hresult
      exact absurd hn (h b hb s n hblob)
  · intro f h
    obtain ⟨b, hb, s, n, hblob, hn, hf⟩ := hfails f h
    obtain ⟨hlong, hrun⟩ := Json.hasRun_of_parse hn
    exact ⟨n, hf, hlong, b, hb, s, hblob, hrun⟩

/-- A text that is one integer, with one digit too many. -/
def overlong : String :=
  String.ofList (List.replicate (Numeral.digitLimit + 1) '1')

theorem whole_ones (n : Nat) : Numeral.Whole (List.replicate (n + 1) '1') where
  ne_nil := by simp
  isDigit c hc := by
    rw [List.eq_of_mem_replicate hc]
    rfl
  no_leading_zero h := by
    rw [List.head?_replicate] at h
    cases h

def sound : Dependency :=
  .ofFields ⟨"com.example", "lib", "1.0.0", "1.x.x", some "1.2.0", false⟩ rfl

/-- Such a text ends the discovery, and what the other artifacts recommend is lost. -/
theorem overlong_integer_is_fatal :
    (discover [("first", some (.text overlong)), ("second", some (.text (render [sound])))]).result =
      .error (.digits (some 4301)) ∧
    (discover [("second", some (.text (render [sound])))]).result = .ok [sound] := by
  have hparse : Json.parse overlong = .error (.digits 4301) := by
    have h := Json.parse_overlong (whole_ones Numeral.digitLimit) (by simp)
    rwa [List.length_replicate] at h
  have hfirst : readBlob (.text overlong) = .error (.digits (some 4301)) :=
    readBlob_error.mpr ⟨overlong, 4301, rfl, hparse, rfl⟩
  constructor
  · rw [discover, Plan.result_bind_error]
    exact .inl (parse_error.mpr hfirst)
  · exact discover_ok.mpr ⟨[[sound]], .cons (contributes_render [sound]) .nil, rfl⟩

end ProductLock.Recommendation
