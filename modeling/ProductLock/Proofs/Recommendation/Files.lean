import ProductLock.Proofs.Plan
import ProductLock.Proofs.Text.Lines
import ProductLock.Recommendation

namespace ProductLock.Recommendation

variable {t : Tree} {path : Path} {paths : List Path} {blobs : List (String × Option Blob)}
  {f : Failure}

/-- The blob at a path, if a text can be read there. -/
def blobAt (t : Tree) (path : Path) : Option (String × Option Blob) :=
  match t.read path with
  | .error _ => none
  | .ok bytes => (Text.decode bytes).map fun s => (path.text, some (.text s))

/-- There is no file at a path, or one that holds a text. -/
def HoldsText (t : Tree) (path : Path) : Prop :=
  ∀ bytes, t.read path = .ok bytes → bytes.IsValidUTF8

/-- What there can be at a path: nothing to read, a text, or bytes that are none. -/
inductive Found (t : Tree) (path : Path) : Prop where
  | nothing {fault : FileFault} (h : t.read path = .error fault)
  | text {bytes : ByteArray} {s : String} (h : t.read path = .ok bytes)
      (hs : Text.decode bytes = some s)
  | other {bytes : ByteArray} (h : t.read path = .ok bytes) (hs : Text.decode bytes = none)

theorem found (t : Tree) (path : Path) : Found t path := by
  cases h : t.read path with
  | error fault => exact .nothing h
  | ok bytes =>
    cases hs : Text.decode bytes with
    | none => exact .other h hs
    | some s => exact .text h hs

/-- The blobs at some paths of a tree. -/
def ofPaths (t : Tree) (paths : List Path) : Plan (List (String × Option Blob)) :=
  ofFiles (paths.map fun path => (path, t.read path))

theorem ofPaths_nothing {fault : FileFault} (h : t.read path = .error fault) :
    (ofPaths t (path :: paths)).result = (ofPaths t paths).result := by
  have hcons : ofPaths t (path :: paths) =
      (Plan.note (.unreadableBlob path fault) >>= fun _ => ofPaths t paths) := by
    rw [ofPaths, List.map_cons, h]
    rfl
  rw [hcons]
  rfl

theorem ofPaths_text {bytes : ByteArray} {s : String} (h : t.read path = .ok bytes)
    (hs : Text.decode bytes = some s) : ofPaths t (path :: paths) = do
      return (path.text, some (.text s)) :: (← ofPaths t paths) := by
  rw [ofPaths, List.map_cons, h, ofFiles, hs]
  rfl

theorem ofPaths_other {bytes : ByteArray} (h : t.read path = .ok bytes)
    (hs : Text.decode bytes = none) : ofPaths t (path :: paths) = Plan.fail .notText := by
  rw [ofPaths, List.map_cons, h, ofFiles, hs]

theorem ofPaths_cons_ok : (ofPaths t (path :: paths)).result = .ok blobs ↔ HoldsText t path ∧
    ∃ rest, (ofPaths t paths).result = .ok rest ∧ (blobAt t path).toList ++ rest = blobs := by
  cases found t path with
  | nothing h => simp [HoldsText, blobAt, h, ofPaths_nothing h]
  | text h hs =>
    rw [ofPaths_text h hs, Plan.result_bind]
    simp [HoldsText, blobAt, h, hs, Text.exists_decode.mp ⟨_, hs⟩, pure]
  | other h hs =>
    rw [ofPaths_other h hs]
    simp [HoldsText, h, Plan.fail, Text.decode_eq_none.mp hs]

theorem ofPaths_cons_error : (ofPaths t (path :: paths)).result = .error f ↔
    f = .notText ∧ ¬ HoldsText t path ∨
    HoldsText t path ∧ (ofPaths t paths).result = .error f := by
  cases found t path with
  | nothing h => simp [HoldsText, h, ofPaths_nothing h]
  | text h hs =>
    rw [ofPaths_text h hs, Plan.result_bind_error]
    simp [HoldsText, h, Text.exists_decode.mp ⟨_, hs⟩, pure]
  | other h hs =>
    rw [ofPaths_other h hs]
    simp [HoldsText, h, Plan.fail, Text.decode_eq_none.mp hs, eq_comm]

/-- Every path where a text can be read gives a blob, in their order; no missing file, directory or
way through a file ends the reading, but a file that holds no text does. -/
theorem ofPaths_result (t : Tree) (paths : List Path) :
    (∀ blobs, (ofPaths t paths).result = .ok blobs ↔
      (∀ path ∈ paths, HoldsText t path) ∧ paths.filterMap (blobAt t) = blobs) ∧
    ∀ f, (ofPaths t paths).result = .error f ↔
      f = .notText ∧ ∃ path ∈ paths, ¬ HoldsText t path := by
  induction paths with
  | nil => simp [ofPaths, ofFiles, pure]
  | cons path paths ih =>
    obtain ⟨ihok, iherror⟩ := ih
    constructor
    · intro blobs
      have hcons : (path :: paths).filterMap (blobAt t) =
          (blobAt t path).toList ++ paths.filterMap (blobAt t) := by
        cases h : blobAt t path <;> simp [h]
      simp only [ofPaths_cons_ok, ihok, hcons, List.forall_mem_cons, and_assoc, exists_and_left,
        exists_eq_left']
    · intro f
      rw [ofPaths_cons_error, iherror]
      by_cases h : HoldsText t path <;> simp [h]

/-- Braces around a byte that is in no text. -/
def scrambled : ByteArray :=
  ⟨#[0x7b, 0xff, 0x7d]⟩

theorem decode_scrambled : Text.decode scrambled = none := by
  rw [Text.decode_eq_none, ← ByteArray.validateUTF8_eq_true_iff]
  decide +kernel

def twoFiles : Tree :=
  ⟨[(["scrambled.json"], .file scrambled), (["sound.json"], .file "\x7b\x7d".toUTF8)]⟩

/-- A file that holds no text ends the reading, and the one after it is lost. -/
theorem undecodable_file_is_fatal :
    (ofPaths twoFiles [⟨0, ["scrambled.json"]⟩, ⟨0, ["sound.json"]⟩]).result = .error .notText ∧
    (ofPaths twoFiles [⟨0, ["sound.json"]⟩]).result =
      .ok [("sound.json", some (.text "\x7b\x7d"))] := by
  have hscrambled : twoFiles.read ⟨0, ["scrambled.json"]⟩ = .ok scrambled := rfl
  have hsound : twoFiles.read ⟨0, ["sound.json"]⟩ = .ok "\x7b\x7d".toUTF8 := rfl
  constructor
  · rw [ofPaths_other hscrambled decode_scrambled]
    rfl
  · rw [ofPaths_text hsound (Text.decode_toUTF8 (by decide))]
    rfl

end ProductLock.Recommendation
