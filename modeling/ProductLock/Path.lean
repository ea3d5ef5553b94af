import ProductLock.Text.Blank

namespace ProductLock

/-- A file path: how many slashes lead it (none, one, or exactly two), then its parts. No part is
empty or a single dot. -/
structure Path where
  slashes : Nat
  parts : List String
deriving DecidableEq, Repr

namespace Path

def leadingSlashes (cs : List Char) : Nat :=
  match (cs.takeWhile (· == '/')).length with
  | 0 => 0
  | 2 => 2
  | _ => 1

def ofString (s : String) : Path :=
  ⟨leadingSlashes s.toList,
    ((Text.pieces '/' s.toList).filter fun p => p != [] && p != ['.']).map String.ofList⟩

/-- The path without parts is written as a dot. -/
def text (p : Path) : String :=
  let s := String.ofList (List.replicate p.slashes '/') ++ "/".intercalate p.parts
  if s = "" then "." else s

def isAbsolute (p : Path) : Bool :=
  p.slashes != 0

def name (p : Path) : String :=
  p.parts.getLast?.getD ""

def parent (p : Path) : Path :=
  { p with parts := p.parts.dropLast }

/-- No file system has a name with a NUL character. -/
def isNamable (p : Path) : Bool :=
  p.parts.all fun part => !part.toList.contains '\x00'

/-- The second path as seen from the first, taken as a directory. -/
def within (base p : Path) : Path :=
  if p.isAbsolute then p else { base with parts := base.parts ++ p.parts }

end Path

end ProductLock
