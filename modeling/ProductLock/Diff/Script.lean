namespace ProductLock.Diff

/-- A step of an edit script over lines. -/
inductive Edit where
  | keep (lines : List String)
  | change (old new : List String)
deriving DecidableEq, Repr

def Edit.old : Edit → List String
  | .keep ls => ls
  | .change old _ => old

def Edit.new : Edit → List String
  | .keep ls => ls
  | .change _ new => new

/-- Lines that occur too often in a long text to anchor a match: those that make up more than a
hundredth of two hundred lines or more. -/
def popularLines (new : List String) : List String :=
  let n := new.length
  if n < 200 then [] else new.filter fun line => new.count line > n / 100 + 1

/-- A run of lines that two texts share, by its place in each and its length. -/
structure Block where
  old : Nat
  new : Nat
  size : Nat
deriving DecidableEq, Repr

/-- For each line of the new text, the length of the common run that ends there and at `line`,
given those for the line before. -/
def nextRow (popular new : List String) (line : String) (row : List Nat) : List Nat :=
  if popular.contains line then new.map fun _ => 0
  else List.zipWith (fun l k => if l = line then k + 1 else 0) new (0 :: row)

/-- The longest run so far, the earliest of those of one length. -/
def bestOfRow (i : Nat) (row : List Nat) (best : Block) : Block :=
  row.zipIdx.foldl (fun best (k, j) => if k > best.size then ⟨i + 1 - k, j + 1 - k, k⟩ else best) best

def longestFrom (popular new : List String) : List String → Nat → List Nat → Block → Block
  | [], _, _, best => best
  | line :: old, i, row, best =>
    let row := nextRow popular new line row
    longestFrom popular new old (i + 1) row (bestOfRow i row best)

def commonLength : List String → List String → Nat
  | a :: as, b :: bs => if a = b then commonLength as bs + 1 else 0
  | _, _ => 0

/-- The longest common run of anchors, extended on both sides over whatever lines are equal. -/
def longestBlock (popular old new : List String) : Block :=
  let core := longestFrom popular new old 0 (new.map fun _ => 0) ⟨0, 0, 0⟩
  let back := commonLength (old.take core.old).reverse (new.take core.new).reverse
  let ahead := commonLength (old.drop (core.old + core.size)) (new.drop (core.new + core.size))
  ⟨core.old - back, core.new - back, back + core.size + ahead⟩

/-- Two neighbouring runs of kept lines are one, and an empty change is none. -/
def Edit.cons (e : Edit) (es : List Edit) : List Edit :=
  match e, es with
  | .change [] [], es => es
  | .keep ls, .keep ms :: rest => .keep (ls ++ ms) :: rest
  | e, es => e :: es

/-- Around the longest common run, the texts on either side are compared in the same way. The first
argument bounds the depth of this; the length of the old text is enough. -/
def scriptWithin (popular : List String) : Nat → List String → List String → List Edit
  | 0, old, new => [.change old new]
  | fuel + 1, old, new =>
    if old = [] ∨ new = [] then [.change old new]
    else
      let block := longestBlock popular old new
      if block.size = 0 then [.change old new]
      else
        scriptWithin popular fuel (old.take block.old) (new.take block.new) ++
          .keep ((old.drop block.old).take block.size) ::
          scriptWithin popular fuel (old.drop (block.old + block.size))
            (new.drop (block.new + block.size))

/-- An edit script in which kept and changed lines take turns. -/
def script (old new : List String) : List Edit :=
  (scriptWithin (popularLines new) old.length old new).foldr Edit.cons []

end ProductLock.Diff
