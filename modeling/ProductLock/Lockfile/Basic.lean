import ProductLock.Report

namespace ProductLock.Lockfile

def defaultName : String := "product-dependencies.lock"

def header : String := "# Run `productdeps resolve --write-locks` to regenerate this file\n"

/-- Stands for the consumer's own version. -/
def placeholder : String := "$projectVersion"

/-- Who reads or writes a lockfile: the products of its own workspace, and its version. -/
structure Workspace where
  products : List ProductId := []
  version : Option String := none

/-- The consumer's own version is not spelled out for a product of its workspace. -/
def Workspace.write (w : Workspace) (id : ProductId) (version : String) : String :=
  if w.version = some version ∧ id ∈ w.products then placeholder else version

def Workspace.writeLine (w : Workspace) (d : Dependency) : String :=
  d.product.text ++ " (" ++ w.write d.product d.minimum ++ ", " ++ d.maximum ++
    (match d.recommended with
      | none => ""
      | some v => ", " ++ w.write d.product v) ++
    ")" ++ (if d.optional then " optional" else "")

/-- The contents of the lockfile; for an empty report there is none. -/
def render (w : Workspace) (r : Report) : Option String :=
  if r.dependencies = [] then none
  else some (header ++ String.join (r.dependencies.map fun d => w.writeLine d ++ "\n"))

end ProductLock.Lockfile
