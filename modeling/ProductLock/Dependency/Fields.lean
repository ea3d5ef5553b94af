import ProductLock.Failure

namespace ProductLock.Dependency

/-- The parts of a dependency before anything is known about them. -/
structure Fields where
  group : String
  name : String
  minimum : String
  maximum : String
  recommended : Option String := none
  optional : Bool := false
deriving DecidableEq, Repr

def requireVersion (ok : String → Bool) (expected : Expected) (id : ProductId) (v : String) :
    Except Failure (PLift (ok v = true)) :=
  if h : ok v = true then .ok ⟨h⟩ else .error (.version v expected (some (.dependency id)))

def requireRecommended (id : ProductId) :
    (r : Option String) → Except Failure (PLift (∀ v, r = some v → Version.isValid v = true))
  | none => .ok ⟨fun _ h => nomatch h⟩
  | some v => do
    let ⟨h⟩ ← requireVersion Version.isValid .recommended id v
    return ⟨fun _ e => Option.some.inj e ▸ h⟩

/-- Checks the group, the name and the versions in turn. -/
def Fields.check (f : Fields) : Except Failure Dependency := do
  let product ← (ProductId.ofParts f.group f.name).mapError Failure.id
  let ⟨hmin⟩ ← requireVersion Version.isValid .minimum product f.minimum
  let ⟨hmax⟩ ← requireVersion Version.isValidOrMatcher .maximum product f.maximum
  let ⟨hrec⟩ ← requireRecommended product f.recommended
  return ⟨product, f.minimum, f.maximum, f.recommended, f.optional, hmin, hmax, hrec⟩

def fields (d : Dependency) : Fields :=
  ⟨d.product.group, d.product.name, d.minimum, d.maximum, d.recommended, d.optional⟩

end ProductLock.Dependency
