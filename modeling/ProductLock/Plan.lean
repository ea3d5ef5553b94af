import ProductLock.Note

namespace ProductLock

inductive Action where
  | note (n : Note)
  | say (line : String)
  | write (path : Path) (contents : String)
  | delete (path : Path)
deriving DecidableEq

/-- What is to be done, in order, and what comes of it when all of it succeeds. -/
structure Plan (α : Type) where
  actions : List Action
  result : Except Failure α

namespace Plan

def act (a : Action) : Plan Unit :=
  ⟨[a], .ok ()⟩

def note (n : Note) : Plan Unit :=
  act (.note n)

def ofResult (r : Except Failure α) : Plan α :=
  ⟨[], r⟩

def fail (f : Failure) : Plan α :=
  ⟨[], .error f⟩

def andThen (p : Plan α) (next : α → Plan β) : Plan β :=
  match p.result with
  | .error f => ⟨p.actions, .error f⟩
  | .ok a =>
    let q := next a
    ⟨p.actions ++ q.actions, q.result⟩

instance : Monad Plan where
  pure a := ⟨[], .ok a⟩
  bind := andThen

def notes (p : Plan α) : List Note :=
  p.actions.filterMap fun
    | .note n => some n
    | _ => none

end Plan

end ProductLock
