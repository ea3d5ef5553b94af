import ProductLock.Advisory
import ProductLock.Dependency.Merge
import ProductLock.Report

namespace ProductLock

/-- What to do with a declaration that is not optional when its product is listed as optional. -/
inductive Policy where
  | reject
  | preferOptional
deriving DecidableEq, Repr

def Policy.all : List Policy :=
  [.reject, .preferOptional]

def Policy.name : Policy → String
  | .reject => "reject"
  | .preferOptional => "prefer-optional"

def Policy.ofName (s : String) : Except Failure Policy :=
  match Policy.all.find? fun p => p.name == s with
  | some p => .ok p
  | none => .error (.unknownChoice s .conflictPolicy)

/-- One product's view of other products: which it ignores and which it always takes as optional. -/
structure Resolver where
  product : ProductId
  ignored : List ProductId := []
  optional : List ProductId := []
  policy : Policy := .reject
deriving DecidableEq

structure Resolution where
  report : Report
  advisories : List Advisory
deriving DecidableEq

namespace Resolver

open Version

def lookup (id : ProductId) (ds : List Dependency) : Option Dependency :=
  ds.find? fun d => d.product = id

/-- A declaration must be one that merging can compute with. -/
def checkMergeable (d : Dependency) : Except Failure Unit := do
  let subject := some (Subject.declared d.product)
  if ¬ isOrderable d.minimum then
    throw (.version d.minimum .orderableMinimum subject)
  if ¬ (isOrderable d.maximum ∨ isMatcher d.maximum) then
    throw (.version d.maximum .orderableOrMatcherMaximum subject)
  if let some v := d.recommended then
    if ¬ isOrderable v then
      throw (.version v .orderableRecommended subject)
  if ¬ (← withinMaximum d.minimum d.maximum) then
    throw (.rangeConflict d d d.minimum d.maximum)

def checkDeclared (r : Resolver) (earlier : List Dependency) (d : Dependency) :
    Except Failure Unit :=
  if d.product = r.product then .error (.selfDependency d)
  else match lookup d.product earlier with
    | some first => .error (.duplicateDeclaration first d)
    | none =>
      if d.product ∈ r.ignored then .error (.ignoredConflict d)
      else if d.product ∈ r.optional ∧ d.optional = false ∧ r.policy = .reject then
        .error (.optionalConflict d)
      else checkMergeable d

def checkAllDeclared (r : Resolver) (earlier : List Dependency) :
    List Dependency → Except Failure Unit
  | [] => .ok ()
  | d :: ds => do
    checkDeclared r earlier d
    checkAllDeclared r (earlier ++ [d]) ds

/-- Merges a dependency into the one on the same product, or puts it last. -/
def absorb (d : Dependency) : List Dependency → Except Failure (List Dependency)
  | [] => .ok [d]
  | e :: es =>
    if e.product = d.product then do return (← e.merge d) :: es
    else do return e :: (← absorb d es)

/-- One dependency for each discovered product but the resolver's own, in the order in which the
products first appear. -/
def gather (r : Resolver) (discovered : List Dependency) : Except Failure (List Dependency) :=
  (discovered.filter fun d => d.product ≠ r.product).foldlM (fun ds d => absorb d ds) []

/-- A discovered dependency together with the declaration on its product, if there is one. -/
def combine (declared : List Dependency) (d : Dependency) :
    Except Failure (Dependency × Option Advisory) :=
  match lookup d.product declared with
  | none => .ok (d, none)
  | some own => do
    let merged ← own.merge d
    return (merged, Advisory.between own d merged)

def isMarkedOptional (r : Resolver) (declared : List Dependency) (id : ProductId) : Bool :=
  r.optional.contains id || declared.any fun d => d.product = id ∧ d.optional

def mark (r : Resolver) (declared : List Dependency) (d : Dependency) : Dependency :=
  if r.isMarkedOptional declared d.product then d.asOptional else d

def resolve (r : Resolver) (declared discovered : List Dependency) : Except Failure Resolution := do
  checkAllDeclared r [] declared
  let found := (← r.gather discovered).filter fun d => d.product ∉ r.ignored
  let combined ← found.mapM (combine declared)
  let undisturbed := declared.filter fun d => (lookup d.product found).isNone
  return {
    report := .of ((undisturbed ++ combined.map Prod.fst).map (r.mark declared))
    advisories := combined.filterMap Prod.snd }

end Resolver

end ProductLock
