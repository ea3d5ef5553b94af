import ProductLock.Diff.Unified
import ProductLock.Lockfile.Reader
import ProductLock.Plan
import ProductLock.Text.Decode

namespace ProductLock.Lockfile

inductive Outcome where
  | unchanged
  | absent
  | created
  | updated
  | deleted
deriving DecidableEq, Repr

def Outcome.name : Outcome → String
  | .unchanged => "unchanged"
  | .absent => "absent"
  | .created => "created"
  | .updated => "updated"
  | .deleted => "deleted"

/-- Whether a lockfile is only compared or also written. -/
inductive Mode where
  | check
  | write
deriving DecidableEq, Repr

/-- The contents of the file at the lockfile's path, if there is one. -/
def contents (r : Except FileFault ByteArray) : Except Failure (Option String) :=
  match r with
  | .error .missing | .error .notDirectory => .ok none
  | .error fault => .error (.file fault)
  | .ok bytes =>
    match Text.decode bytes with
    | some s => .ok (some s)
    | none => .error .notText

/-- What becomes of a lockfile, given what it holds and what it should hold. -/
def compare (mode : Mode) (path : Path) (existing expected : Option String) :
    Except Failure Outcome :=
  let stale (state : LockfileState) : Except Failure Outcome :=
    .error (.lockfile state path (Diff.unified (existing.getD "") (expected.getD "")))
  match existing, expected with
  | none, none => .ok .absent
  | some _, none => if mode = .write then .ok .deleted else stale .unwanted
  | none, some _ => if mode = .write then .ok .created else stale .missing
  | some old, some new =>
    if old = new then .ok .unchanged
    else if mode = .write then .ok .updated
    else stale .stale

/-- Brings a lockfile to an outcome. -/
def enact (path : Path) (expected : String) : Outcome → Plan Unit
  | .unchanged | .absent => pure ()
  | .created => do
    Plan.act (.write path expected)
    Plan.note (.created path expected)
  | .updated => do
    Plan.act (.write path expected)
    Plan.note (.updated path)
  | .deleted => do
    Plan.act (.delete path)
    Plan.note (.deleted path)

def sync (mode : Mode) (path : Path) (existing expected : Option String) : Plan Outcome := do
  let outcome ← Plan.ofResult (compare mode path existing expected)
  enact path (expected.getD "") outcome
  return outcome

end ProductLock.Lockfile
