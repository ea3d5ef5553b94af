import ProductLock.Dependency.Fields
import ProductLock.Lockfile.Basic
import ProductLock.Text.Lines

namespace ProductLock.Lockfile

def isNameChar (c : Char) : Bool :=
  !Text.isBlank c && c != ':'

def isVersionChar (c : Char) : Bool :=
  !Text.isBlank c && c != ',' && c != '(' && c != ')'

/-- The longest run of a class in front, if there is one. -/
def takeRun (p : Char → Bool) (cs : List Char) : Option (String × List Char) :=
  let run := cs.takeWhile p
  if run = [] then none else some (String.ofList run, cs.dropWhile p)

def takeMark (mark : String) (cs : List Char) : Option (List Char) :=
  if mark.toList.isPrefixOf cs then some (cs.drop mark.toList.length) else none

/-- The recommendation and the closing parenthesis. -/
def readTail (cs : List Char) : Option (Option String × List Char) :=
  match takeMark ", " cs with
  | none => (takeMark ")" cs).map fun rest => (none, rest)
  | some cs => do
    let (recommended, cs) ← takeRun isVersionChar cs
    return (some recommended, ← takeMark ")" cs)

def readOptional (cs : List Char) : Option Bool :=
  if cs = [] then some false else if cs = " optional".toList then some true else none

/-- The parts of a record line: `group:name (minimum, maximum[, recommended])[ optional]`. -/
def readLine (line : String) : Option Dependency.Fields := do
  let (group, cs) ← takeRun isNameChar line.toList
  let (name, cs) ← takeRun isNameChar (← takeMark ":" cs)
  let (minimum, cs) ← takeRun isVersionChar (← takeMark " (" cs)
  let (maximum, cs) ← takeRun isVersionChar (← takeMark ", " cs)
  let (recommended, cs) ← readTail cs
  return { group, name, minimum, maximum, recommended, optional := ← readOptional cs }

/-- The version that a field stands for; none for a placeholder that stands for nothing. -/
def expand (version : Option String) (field : String) : Option String :=
  if field = placeholder then version else some field

def expandFields (version : Option String) (f : Dependency.Fields) : Option Dependency.Fields := do
  let minimum ← expand version f.minimum
  match f.recommended with
  | none => return { f with minimum }
  | some r => return { f with minimum, recommended := ← expand version r }

def isSkipped (line : String) : Bool :=
  Text.allBlank line || line.toList.head? == some '#'

/-- A version that no dependency can have makes its line malformed; other failures stay. -/
def readRecord (version : Option String) (path : Option Path) (number : Nat) (line : String) :
    Except Failure Dependency :=
  match (readLine line).bind (expandFields version) with
  | none => .error (.lockfileLine path number line)
  | some fields =>
    match fields.check with
    | .error (.version _ _ _) => .error (.lockfileLine path number line)
    | other => other

/-- Lines are numbered from the given number on. -/
def readRecords (version : Option String) (path : Option Path) :
    Nat → List String → Except Failure (List Dependency)
  | _, [] => .ok []
  | number, line :: rest =>
    if isSkipped line then readRecords version path (number + 1) rest
    else do
      let d ← readRecord version path number line
      return d :: (← readRecords version path (number + 1) rest)

/-- Reads the contents of a lockfile, or of none. -/
def parse (content version : Option String) (path : Option Path) : Except Failure Report :=
  match content with
  | none => .ok (.of [])
  | some text => do
    return .of (← readRecords version path 1 ((Text.lines text).map Text.Line.body))

end ProductLock.Lockfile
