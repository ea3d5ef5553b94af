import ProductLock.Failure

namespace ProductLock

/-- Where something lies below the root, one name a level. -/
abbrev Place := List String

inductive Entry where
  | directory
  | file (bytes : ByteArray)

instance : DecidableEq Entry
  | .directory, .directory => isTrue rfl
  | .directory, .file _ => isFalse nofun
  | .file _, .directory => isFalse nofun
  | .file a, .file b =>
    match ByteArray.instDecidableEq a b with
    | isTrue h => isTrue (congrArg Entry.file h)
    | isFalse h => isFalse fun he => h (Entry.file.inj he)

/-- Files and directories by their places. The working directory is the root, and there is nothing
outside it. -/
structure Tree where
  entries : List (Place × Entry)
deriving DecidableEq

namespace Tree

def empty : Tree := ⟨[]⟩

def lookup (t : Tree) (p : Place) : Option Entry :=
  if p = [] then some .directory else (t.entries.find? fun e => e.1 == p).map Prod.snd

def erase (t : Tree) (p : Place) : Tree :=
  ⟨t.entries.filter fun e => e.1 != p⟩

def set (t : Tree) (p : Place) (e : Entry) : Tree :=
  ⟨(p, e) :: (t.erase p).entries⟩

/-- Follows the parts of a path from a place on. All but the last must lead to directories. -/
def walk (t : Tree) (here : Place) : List String → Except FileFault Place
  | [] => .ok here
  | part :: parts =>
    match t.lookup here with
    | none => .error .missing
    | some (.file _) => .error .notDirectory
    | some .directory => walk t (if part = ".." then here.dropLast else here ++ [part]) parts

def locate (t : Tree) (path : Path) : Except FileFault Place :=
  t.walk [] path.parts

def read (t : Tree) (path : Path) : Except FileFault ByteArray := do
  match t.lookup (← t.locate path) with
  | none => throw .missing
  | some .directory => throw .isDirectory
  | some (.file bytes) => return bytes

def isDirectory (t : Tree) (path : Path) : Bool :=
  match t.locate path with
  | .error _ => false
  | .ok p => t.lookup p == some .directory

def write (t : Tree) (path : Path) (bytes : ByteArray) : Except FileFault Tree := do
  let p ← t.locate path
  match t.lookup p with
  | some .directory => throw .isDirectory
  | _ => return t.set p (.file bytes)

def remove (t : Tree) (path : Path) : Except FileFault Tree := do
  let p ← t.locate path
  match t.lookup p with
  | none => throw .missing
  | some .directory => throw .isDirectory
  | some (.file _) => return t.erase p

/-- Makes one directory, whose parent must be there. -/
def makeDirectory (t : Tree) (path : Path) : Except FileFault Tree := do
  let p ← t.locate path
  match t.lookup p with
  | some _ => throw .exists
  | none => return t.set p .directory

/-- A directory that is there already is as good as a new one. -/
def acceptDirectory (t : Tree) (path : Path) (fault : FileFault) : Tree × Except FileFault Unit :=
  (t, if t.isDirectory path then .ok () else .error fault)

/-- Sees to it that there is a directory at a path, given by its parts, the last one first. Parents
that were made stay when a later step fails. -/
def ensureFrom (slashes : Nat) (t : Tree) : List String → Tree × Except FileFault Unit
  | [] => acceptDirectory t ⟨slashes, []⟩ .exists
  | part :: parents =>
    let path : Path := ⟨slashes, (part :: parents).reverse⟩
    match t.makeDirectory path with
    | .ok made => (made, .ok ())
    | .error .missing =>
      match ensureFrom slashes t parents with
      | (t, .error fault) => (t, .error fault)
      | (t, .ok ()) =>
        match t.makeDirectory path with
        | .ok made => (made, .ok ())
        | .error fault => acceptDirectory t path fault
    | .error fault => acceptDirectory t path fault

def ensureDirectory (t : Tree) (path : Path) : Tree × Except FileFault Unit :=
  ensureFrom path.slashes t path.parts.reverse

/-- Makes a directory that was not there, with its parents. -/
def makeDirectories (t : Tree) (path : Path) : Tree × Except FileFault Unit :=
  match t.makeDirectory path with
  | .ok t => (t, .ok ())
  | .error .missing =>
    match t.ensureDirectory path.parent with
    | (t, .error fault) => (t, .error fault)
    | (t, .ok ()) =>
      match t.makeDirectory path with
      | .ok t => (t, .ok ())
      | .error fault => (t, .error fault)
  | .error fault => (t, .error fault)

end Tree

end ProductLock
