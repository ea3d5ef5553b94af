import ProductLock.Tree.Basic

namespace ProductLock.Tree

/-- The steps of replacing a file as a whole. -/
inductive Step where
  | parents
  | temporary
  | contents
  | replacement
deriving DecidableEq, Repr

/-- A step that fails from outside; of the parents some may have been made, of the contents some
bytes may have been written. -/
structure Interruption where
  step : Step
  fault : FileFault
  made : Nat := 0
  written : Nat := 0
deriving DecidableEq, Repr

def stopsAt (i : Option Interruption) (s : Step) : Option FileFault :=
  match i with
  | some i => if i.step = s then some i.fault else none
  | none => none

def longest (ns : List Nat) : Nat :=
  ns.foldl max 0

/-- A name that nothing has: it is longer than every name in the tree. -/
def temporaryName (t : Tree) (name : String) : String :=
  let width := longest (t.entries.map fun e => (e.1.getLast?.getD "").length)
  "." ++ name ++ "." ++ String.ofList (List.replicate width '_') ++ ".tmp"

/-- Puts the file at one place in the place of what a path names, which must not be a directory. -/
def rename (t : Tree) (source : Place) (bytes : ByteArray) (path : Path) : Except FileFault Tree :=
  if path.name = "" ∨ path.name = ".." then .error .busy
  else (t.erase source).write path bytes

/-- Writes a temporary file beside the target, under a name for its directory, and moves it there.
When a step fails the temporary file goes, and only new parent directories stay. -/
def replaceBy (t : Tree) (temporary : Tree → Place → String) (i : Option Interruption)
    (path : Path) (bytes : ByteArray) : Tree × Except FileFault Unit :=
  match stopsAt i .parents with
  | some fault =>
    let made := path.parent.parts.take ((i.map Interruption.made).getD 0)
    ((t.ensureDirectory ⟨path.slashes, made⟩).1, .error fault)
  | none =>
    match t.ensureDirectory path.parent with
    | (t, .error fault) => (t, .error fault)
    | (t, .ok ()) =>
      match stopsAt i .temporary, t.locate path.parent with
      | some fault, _ => (t, .error fault)
      | none, .error fault => (t, .error fault)
      | none, .ok directory =>
        let source := directory ++ [temporary t directory]
        match stopsAt i .contents with
        | some fault =>
          let written := bytes.extract 0 ((i.map Interruption.written).getD 0)
          ((t.set source (.file written)).erase source, .error fault)
        | none =>
          let t := t.set source (.file bytes)
          match stopsAt i .replacement with
          | some fault => (t.erase source, .error fault)
          | none =>
            match t.rename source bytes path with
            | .ok t => (t, .ok ())
            | .error fault => (t.erase source, .error fault)

/-- The step at which no file can be written to a path, whatever the tree: one of its directories,
or only the file itself, cannot be named. -/
def obstacle? (path : Path) : Option Interruption :=
  if ¬ path.parent.isNamable then some ⟨.parents, .unnamable, 0, 0⟩
  else if ¬ path.isNamable then some ⟨.temporary, .unnamable, 0, 0⟩
  else none

/-- Replaces a file by way of one whose name nothing has. -/
def replace (t : Tree) (path : Path) (bytes : ByteArray) : Tree × Except FileFault Unit :=
  t.replaceBy (fun t _ => t.temporaryName path.name) (obstacle? path) path bytes

end ProductLock.Tree
