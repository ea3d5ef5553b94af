import ProductLock.Product
import ProductLock.Version.Grammar

namespace ProductLock

/-- A constraint on one product. The versions are kept as they were written. -/
structure Dependency where
  product : ProductId
  minimum : String
  maximum : String
  recommended : Option String := none
  optional : Bool := false
  minimum_ok : Version.isValid minimum = true
  maximum_ok : Version.isValidOrMatcher maximum = true
  recommended_ok : ∀ v, recommended = some v → Version.isValid v = true
deriving DecidableEq

namespace Dependency

def asOptional (d : Dependency) : Dependency :=
  { d with optional := true }

def text (d : Dependency) : String :=
  d.product.text ++ " (" ++ d.minimum ++ ", " ++ d.maximum ++
    (match d.recommended with
      | none => ""
      | some v => ", recommended " ++ v) ++
    ")" ++ (if d.optional then " optional" else "")

end Dependency

end ProductLock
