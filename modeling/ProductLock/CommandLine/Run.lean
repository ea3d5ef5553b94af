import ProductLock.CommandLine.Classify
import ProductLock.CommandLine.Resolve
import ProductLock.CommandLine.Usage
import ProductLock.Tree.Perform

namespace ProductLock.CommandLine

/-- How a command ends: its exit code, and the failure that it does not explain. -/
structure Ending where
  exit : Nat
  unexplained : Option Failure := none
deriving DecidableEq

def usageExit : Nat := 2

/-- What is printed about a failure, and how the command ends. -/
def explain (f : Failure) : List String × Ending :=
  if f.isExplained then ([Screen.shown ("Error: " ++ f.message)], ⟨1, none⟩)
  else ([], ⟨1, some f⟩)

/-- An invalid version is told by the exit code only. -/
def Request.exit : Request → Nat
  | .classify versions _ => if anyInvalid versions then usageExit else 0
  | _ => 0

/-- Whether a note is shown: those of the lowest level only on request. -/
def Request.shows (r : Request) (n : Note) : Bool :=
  match r with
  | .resolve o => o.verbose || n.level != .debug
  | _ => true

def Request.plan {m : Type → Type} [Monad m] (services : Services)
    (read : Path → m (Except FileFault ByteArray)) : Request → m (Plan Unit)
  | .help => return ⟨usage.map .say, .ok ()⟩
  | .resolve o => resolveReading services read o
  | .classify versions asJson => return classifyPlan services versions asJson

/-- The tree after a command, with what it printed and logged. -/
structure Run where
  tree : Tree
  printed : List String
  notes : List Note
  ending : Ending

def runRequest (services : Services) (t : Tree) (r : Request) : Run :=
  let performed := t.perform (Id.run (r.plan services fun path => t.read path))
  let (complaint, ending) :=
    match performed.result with
    | .ok () => ([], ⟨r.exit, none⟩)
    | .error f => explain f
  { tree := performed.tree
    printed := performed.said ++ complaint
    notes := performed.notes.filter r.shows
    ending }

def run (services : Services) (t : Tree) (arguments : List String) (environment : Option String) :
    Run :=
  match Request.ofArguments arguments environment with
  | none => ⟨t, [], [], ⟨usageExit, none⟩⟩
  | some r => runRequest services t r

end ProductLock.CommandLine
