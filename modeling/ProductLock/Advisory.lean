import ProductLock.Failure

namespace ProductLock

inductive Advisory.Kind where
  | redundantDeclaration
  | redundantRecommendation
deriving DecidableEq, Repr

/-- A hint that a declared dependency could be simplified. -/
structure Advisory where
  kind : Advisory.Kind
  declared : Dependency
  discovered : Dependency
deriving DecidableEq

namespace Advisory

def Kind.all : List Kind :=
  [.redundantDeclaration, .redundantRecommendation]

def Kind.name : Kind → String
  | .redundantDeclaration => "redundant-declaration"
  | .redundantRecommendation => "redundant-recommendation"

def Kind.ofName (s : String) : Except Failure Kind :=
  match Kind.all.find? fun k => k.name == s with
  | some k => .ok k
  | none => .error (.unknownChoice s .advisoryKind)

def product (a : Advisory) : ProductId :=
  a.declared.product

def comparison (a : Advisory) : String :=
  ":\n\n\tProvided:     " ++ a.discovered.text ++ "\n\tYou declared: " ++ a.declared.text

def message (a : Advisory) : String :=
  match a.kind with
  | .redundantDeclaration =>
    "Please remove your declared product dependency on '" ++ a.product.text ++
      "' because it is already provided by an upstream artifact" ++ a.comparison
  | .redundantRecommendation =>
    "The recommended version " ++ a.declared.recommended.getD "None" ++ " declared for '" ++
      a.product.text ++
      "' is already recommended by an upstream artifact and can be removed" ++ a.comparison

/-- What the merge of a declared and a discovered dependency says about the declaration. -/
def between (declared discovered merged : Dependency) : Option Advisory :=
  if merged = discovered then some ⟨.redundantDeclaration, declared, discovered⟩
  else if declared.recommended ≠ none ∧ declared.recommended = discovered.recommended ∧
      merged.recommended = declared.recommended then
    some ⟨.redundantRecommendation, declared, discovered⟩
  else none

end Advisory

end ProductLock
