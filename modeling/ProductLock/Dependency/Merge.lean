import ProductLock.Version.Order

namespace ProductLock.Dependency

open Version

def isGreater (a b : String) : Except Failure Bool :=
  if a = b then .ok false else do return (← compareOrderable a b) == .gt

def isLesserMaximum (a b : String) : Except Failure Bool :=
  if a = b then .ok false else do return (← compareMaximum a b) == .lt

def inWindow (minimum maximum version : String) : Except Failure Bool := do
  if (← compareOrderable version minimum) == .lt then return false
  withinMaximum version maximum

/-- A recommendation outside the window counts as none. -/
def keepInWindow (minimum maximum : String) : Option String → Except Failure (Option String)
  | none => .ok none
  | some v => do return if ← inWindow minimum maximum v then some v else none

/-- Which of two recommendations a merged dependency keeps. -/
inductive Pick where
  | neither
  | first
  | second
deriving DecidableEq, Repr

def Pick.apply : Pick → Option String → Option String → Option String
  | .neither, _, _ => none
  | .first, r, _ => r
  | .second, _, s => s

/-- The greater of the recommendations that fit, the first when they are equally high. -/
def pickRecommended (minimum maximum : String) (r s : Option String) : Except Failure Pick := do
  match ← keepInWindow minimum maximum r, ← keepInWindow minimum maximum s with
  | none, none => return .neither
  | some _, none => return .first
  | none, some _ => return .second
  | some v, some w => return if ← isGreater w v then .second else .first

theorem Pick.apply_ok {p : Pick} {r s : Option String}
    (hr : ∀ v, r = some v → isValid v = true) (hs : ∀ v, s = some v → isValid v = true) :
    ∀ v, p.apply r s = some v → isValid v = true := by
  cases p with
  | neither => exact fun _ h => nomatch h
  | first => exact hr
  | second => exact hs

/-- The tightest constraint that both allow: the greater minimum, the lesser maximum, the greatest
recommendation between them. It is optional only if both are. -/
def merge (a b : Dependency) : Except Failure Dependency :=
  if a.product ≠ b.product then .error (.differentProducts a.product b.product)
  else if a = b then .ok a
  else do
    let higher ← isGreater b.minimum a.minimum
    let lower ← isLesserMaximum b.maximum a.maximum
    let minimum := if higher then b.minimum else a.minimum
    let maximum := if lower then b.maximum else a.maximum
    if ← withinMaximum minimum maximum then
      let pick ← pickRecommended minimum maximum a.recommended b.recommended
      return {
        product := a.product
        minimum
        maximum
        recommended := pick.apply a.recommended b.recommended
        optional := a.optional && b.optional
        minimum_ok := by
          cases higher
          · exact a.minimum_ok
          · exact b.minimum_ok
        maximum_ok := by
          cases lower
          · exact a.maximum_ok
          · exact b.maximum_ok
        recommended_ok := Pick.apply_ok a.recommended_ok b.recommended_ok }
    else .error (.rangeConflict a b minimum maximum)

end ProductLock.Dependency
