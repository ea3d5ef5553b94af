import ProductLock.Plan
import ProductLock.Tree.Replace

namespace ProductLock

/-- What came of a plan: the tree, the actions that succeeded, and the result. -/
structure Performed (α : Type) where
  tree : Tree
  done : List Action
  result : Except Failure α

def Action.perform (t : Tree) : Action → Tree × Except FileFault Unit
  | .note _ | .say _ => (t, .ok ())
  | .write path contents => t.replace path contents.toUTF8
  | .delete path =>
    if ¬ path.isNamable then (t, .error .unnamable)
    else
      match t.remove path with
      | .ok t => (t, .ok ())
      | .error fault => (t, .error fault)

namespace Tree

/-- Carries out actions up to the first that fails. -/
def performAll (t : Tree) : List Action → Tree × List Action × Option FileFault
  | [] => (t, [], none)
  | a :: as =>
    match a.perform t with
    | (t, .error fault) => (t, [], some fault)
    | (t, .ok ()) =>
      let (t, done, fault) := performAll t as
      (t, a :: done, fault)

def perform (t : Tree) (p : Plan α) : Performed α :=
  match t.performAll p.actions with
  | (t, done, some fault) => ⟨t, done, .error (.file fault)⟩
  | (t, done, none) => ⟨t, done, p.result⟩

end Tree

namespace Performed

def notes (p : Performed α) : List Note :=
  p.done.filterMap fun
    | .note n => some n
    | _ => none

def said (p : Performed α) : List String :=
  p.done.filterMap fun
    | .say line => some line
    | _ => none

end Performed

end ProductLock
